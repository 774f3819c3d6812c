import FactBase.Json.Form
import FactBase.Main
import FactBase.Proofs.Atomicity
import FactBase.Proofs.Issuing
import FactBase.Proofs.Keying
import FactBase.Proofs.Listing
import FactBase.Proofs.Queryable
import FactBase.Proofs.Weathering
import FactBase.Proofs.Repeats
import FactBase.Proofs.Conjunction
import FactBase.Proofs.Growth
import FactBase.Proofs.Shuffling
import FactBase.Proofs.Slicing
import FactBase.Proofs.Garbling
import FactBase.Proofs.Tearing
import FactBase.Proofs.Overwriting
import FactBase.Proofs.Walking
import FactBase.Proofs.Absorbing
import FactBase.Proofs.Collating
import FactBase.Proofs.Probing
import FactBase.Proofs.Surface

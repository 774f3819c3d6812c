import FactBase.Proofs.ByteOrder
import FactBase.Proofs.Scanning
/-!
# FullScan — the range of a plan leaves no match out

Whatever a store holds, a key matches a goal on an index as soon as it splits for that index and has the goal's segment
at each concrete position (`Goal.Matches`).  A plan scans one range and checks the keys in it.  Keys of plain ASCII that
match lie in the range (`contains_of_matches`), so the scan finds the matches that reading every key would find
(`finds_every_match`).
-/
namespace FactBase

/-- All characters are ASCII. -/
def Text.IsAscii (s : String) : Prop := ∀ c ∈ s.toList, c.toNat < 128

instance (s : String) : Decidable (Text.IsAscii s) := List.decidableBAll (fun c : Char => c.toNat < 128) s.toList

theorem Text.IsAscii.lt_highMark {s : String} (h : IsAscii s) {c : Char} (hc : c ∈ s.toList) :
    c < KeyInterval.highMark := by
  have hlow : c.toNat < 128 := h c hc
  have hhigh : KeyInterval.highMark.toNat = 255 := rfl
  have hlt : c.toNat < KeyInterval.highMark.toNat := by omega
  exact hlt

namespace Key

/-- The segments of a key are parts of it. -/
theorem mem_toList_of_split {key : String} {index : IndexOrder} {texts : Tuple String}
    (h : split key = .ok (index, texts)) {pos : Position} {c : Char} (hc : c ∈ (texts.get pos).toList) :
    c ∈ key.toList := by
  rw [encodeAll_of_split h, toList_encodeAll]
  exact List.mem_append_right _ (mem_intercalate_of_mem hc (List.mem_map_of_mem (index.mem_order pos)))

end Key

/-- A key matches a goal on an index: it splits for this index, and has the goal's segment at each concrete position. -/
def Goal.Matches (g : Goal) (index : IndexOrder) (key : String) : Prop :=
  ∃ texts, Key.split key = .ok (index, texts) ∧
    ∀ pos value segment, g.get pos = .concrete value segment → texts.get pos = segment

namespace ScanPlan

variable {index : IndexOrder} {g : Goal} {key : String}

theorem fits_ofGoal_iff {texts : Tuple String} : (ofGoal index g).Fits texts ↔
    ∀ pos value segment, g.get pos = .concrete value segment → texts.get pos = segment := by
  unfold Fits ofGoal
  simp only [Tuple.get_map]
  constructor
  · intro hfits pos value segment hterm
    exact hfits pos segment (by rw [hterm]; rfl)
  · intro h pos segment hsegment
    cases hterm : g.get pos with
    | blank => rw [hterm] at hsegment; cases hsegment
    | var name => rw [hterm] at hsegment; cases hsegment
    | concrete value other =>
      rw [hterm] at hsegment
      obtain rfl := Option.some.inj hsegment
      exact h pos value other hterm

/-- **A plan accepts the keys that match its goal.** -/
theorem accepts_iff_matches : (ofGoal index g).accepts key = true ↔ g.Matches index key := by
  constructor
  · intro haccepts
    obtain ⟨texts, hsplit⟩ := split_of_accepts haccepts
    exact ⟨texts, hsplit, fits_ofGoal_iff.1 ((accepts_iff hsplit).1 haccepts)⟩
  · rintro ⟨texts, hsplit, hterms⟩
    exact (accepts_iff hsplit).2 (fits_ofGoal_iff.2 hterms)

/-- **An ASCII key that matches lies in the range.** -/
theorem contains_of_matches (hmatches : g.Matches index key) (hascii : Text.IsAscii key) :
    (ofGoal index g).range.contains key = true := by
  obtain ⟨texts, hsplit, hterms⟩ := hmatches
  have hplain : ∀ pos, ∀ c ∈ (texts.get pos).toList, c < KeyInterval.highMark := by
    intro pos c hc
    exact hascii.lt_highMark (Key.mem_toList_of_split hsplit hc)
  rw [Key.encodeAll_of_split hsplit]
  exact @contains_range (ofGoal index g) texts (fits_ofGoal_iff.2 hterms) hplain

/-- **The scan of a plan finds what reading every key finds.**  Let the store hold anything under keys of plain ASCII,
and let reads work.  On each index, for a goal with any terms and any segments, the plan finds exactly the stored keys
that match, each once and in the order of their bytes, and none of them lies outside its range. -/
theorem finds_every_match (index : IndexOrder) (g : Goal) {s : Session}
    (hascii : ∀ key ∈ s.store.entries.keys, Text.IsAscii key) (hworks : s.store.faults.ReadsWork) :
    ∃ found, ((ofGoal index g).keys s).1 = .ok found ∧
      (∀ key, key ∈ found ↔ key ∈ s.store.entries.keys ∧ g.Matches index key) ∧
      found.Pairwise (fun key key' => Bytes.ofText key < Bytes.ofText key') ∧
      ∀ key ∈ s.store.entries.keys, g.Matches index key → (ofGoal index g).range.contains key = true := by
  obtain ⟨s', hrun, -⟩ := reads_keys s.store.entries (ofGoal index g) s rfl hworks
  refine ⟨_, congrArg Prod.fst hrun, fun key => ?_, ?_, fun key hkey hmatches => ?_⟩
  · rw [List.mem_filter, KeyMap.mem_keysIn, ← KeyMap.mem_keys, accepts_iff_matches]
    constructor
    · rintro ⟨⟨hkey, -⟩, hmatches⟩
      exact ⟨hkey, hmatches⟩
    · rintro ⟨hkey, hmatches⟩
      exact ⟨⟨hkey, contains_of_matches hmatches (hascii key hkey)⟩, hmatches⟩
  · refine List.Pairwise.imp (fun hlt => Bytes.ofText_lt_iff.2 hlt) ?_
    exact (KeyMap.pairwise_keysIn s.store.entries _).filter _
  · exact contains_of_matches hmatches (hascii key hkey)

/-- A store with what a scan must not find: a key that breaks off, one of another index, one of the dictionary, and a
neighbour whose first segment only begins like the one that is asked for. -/
def mixedStore : Store := .ofEntries (KeyMap.empty.insertAll [("aevto!name!ab!bob!000001!1", ""), ("eavto!ab!name", ""),
  ("eavto!ab!name!bob!000001!1", ""), ("eavto!abc!name!eve!000001!1", ""), ("hash!ab", "0001")])

theorem finds_every_match_mixedStore :
    let s := Session.start mixedStore
    let g : Goal := ⟨.concrete (.text "0001") "ab", .var "?a", .blank, .concrete (.integer 1) "000001", .blank⟩
    (∀ key ∈ s.store.entries.keys, Text.IsAscii key) ∧ s.store.faults.ReadsWork ∧
      ((ofGoal .eavto g).keys s).1 = .ok ["eavto!ab!name!bob!000001!1"] ∧
      g.Matches .eavto "eavto!ab!name!bob!000001!1" ∧ ¬g.Matches .eavto "eavto!abc!name!eve!000001!1" := by
  intro s g
  have hascii : ∀ key ∈ s.store.entries.keys, Text.IsAscii key := by decide +kernel
  have hstored : "eavto!abc!name!eve!000001!1" ∈ s.store.entries.keys := by decide +kernel
  have hkeys : ((ofGoal .eavto g).keys s).1 = .ok ["eavto!ab!name!bob!000001!1"] := by decide +kernel
  obtain ⟨found, hfound, hmem, -, -⟩ := finds_every_match .eavto g hascii Faults.readsWork_never
  obtain rfl : ["eavto!ab!name!bob!000001!1"] = found := Except.ok.inj (hkeys.symm.trans hfound)
  refine ⟨hascii, Faults.readsWork_never, hkeys, ((hmem _).1 (List.mem_singleton_self _)).2, fun hmatches => ?_⟩
  exact absurd ((hmem _).2 ⟨hstored, hmatches⟩) (by decide)

end ScanPlan
end FactBase

import SpectrumOffchain.Funding.Repo
import SpectrumOffchain.Lib.Reaching

/-!
# Which boxes are collected

`collect` is meant to take confirmed boxes before predicted ones and these before selected ones,
and in each class the boxes of large value first (`FundingRecord.Precedes`), until a target is
reached (`Collects`).

It goes by the keys of the records.  The class is in their first byte.  The negated value follows
with its lowest byte first, so that keys are not in the order of the values; and the records are
written back as selected while the loop goes on, before it is known whether the target will be
reached.  `InOrder` says which contents and targets this does no harm to (`collects_iff`).

## Strategy

Over a sound store the records sorted by their keys are a list without repetition, strictly
increasing (`pairwise_sorted`), and the loop takes a prefix of it, the shortest that reaches
the target (`collectFrom_eq`), unless a sum overflows on the way (`collectFrom_crash`).  What
it does to the store is a fold over this prefix, which selects each of its records
(`mem_foldl_select`).

This gives the three outcomes: enough funds (`collect_of_le`), too little
(`collect_of_lt`), and an overflow (`collect_crash`).  Each is compared with what `Collects`
asks for in the same situation.  Where values are equal the order that is meant leaves a
choice; that some such order takes the same records is decided by comparing each record that
is taken with the later ones (`exists_reach_iff`), which is the condition `InOrder`.
-/

namespace SpectrumOffchain.Funding

open Reaching

/-! ## The order of the keys -/

theorem FundingKey.id_of_bytes {key key' : FundingKey} (h : key.bytes = key'.bytes) :
    key.id = key'.id := by
  have hlength : (Bincode.uint 8 key.seqNum ++ Bincode.uint 8 key.negValue).length =
      (Bincode.uint 8 key'.seqNum ++ Bincode.uint 8 key'.negValue).length := by
    rw [List.length_append, List.length_append, Bincode.length_uint, Bincode.length_uint,
      Bincode.length_uint, Bincode.length_uint]
  have hbytes : key.id.boxId.bytes = key'.id.boxId.bytes := (List.append_inj h hlength).2
  obtain ⟨_, _, ⟨⟨_, _⟩⟩⟩ := key
  obtain ⟨_, _, ⟨⟨_, _⟩⟩⟩ := key'
  cases hbytes
  rfl

namespace FundingRecord

def ergValue (r : FundingRecord) : ℕ := r.box.value.ergValue

/-- The database iterates over `r` before it gets to `r'`. -/
def Lt (r r' : FundingRecord) : Prop := r.key.bytes < r'.key.bytes

instance : DecidableRel Lt := fun r r' => inferInstanceAs (Decidable (r.key.bytes < r'.key.bytes))

instance : Std.Asymm Lt := ⟨fun _ _ => List.lt_asymm⟩

/-- The order that is meant: by class, and in a class by decreasing value. -/
def Precedes (r r' : FundingRecord) : Prop :=
  r.seqNum < r'.seqNum ∨ r.seqNum = r'.seqNum ∧ r'.ergValue ≤ r.ergValue

instance : DecidableRel Precedes := fun r r' =>
  inferInstanceAs (Decidable (r.seqNum < r'.seqNum ∨ _ ∧ _))

instance : Std.Total Precedes := ⟨fun r r' => by unfold Precedes; omega⟩

instance : IsTrans FundingRecord Precedes := ⟨fun r r' r'' => by unfold Precedes; omega⟩

end FundingRecord

/-- The priorities of the records of the store. -/
def priorities : List ℕ := [confirmedPriority, predictedPriority, selectedPriority]

/-- The class is compared first. -/
theorem seqNum_le_of_lt {r r' : FundingRecord} (hr : r.seqNum ∈ priorities)
    (hr' : r'.seqNum ∈ priorities) (h : r.Lt r') : r.seqNum ≤ r'.seqNum := by
  by_contra hlt
  have hbyte : UInt8.ofNat r'.seqNum < UInt8.ofNat r.seqNum := by
    revert hlt
    generalize r.seqNum = n at hr ⊢
    generalize r'.seqNum = n' at hr' ⊢
    revert n n'
    decide
  have hbytes : r'.Lt r := List.cons_lt_cons_iff.mpr (.inl hbyte)
  exact List.lt_asymm h hbytes

/-! ## The loop -/

namespace FundingRepo

/-- A store as the repository writes it, with one record for each box. -/
structure Content (repo : FundingRepo) : Prop where
  sound : repo.Sound FundingRecord.id
  classes : ∀ r ∈ repo.records.entries, r.seqNum ∈ priorities

variable {repo : FundingRepo} {target : ℕ}

theorem pairwise_sorted (hsound : repo.Sound FundingRecord.id) :
    repo.sorted.Pairwise FundingRecord.Lt := by
  have : Std.Total fun r r' : FundingRecord => r.key.bytes ≤ r'.key.bytes :=
    ⟨fun r r' => List.le_total r.key.bytes r'.key.bytes⟩
  have : IsTrans FundingRecord fun r r' => r.key.bytes ≤ r'.key.bytes :=
    ⟨fun _ _ _ => List.le_trans⟩
  have hle : repo.sorted.Pairwise fun r r' => r.key.bytes ≤ r'.key.bytes :=
    List.pairwise_insertionSort _ _
  have hne := List.pairwise_map.mp (repo.nodup_ids_sorted hsound)
  refine (hle.and hne).imp ?_
  rintro r r' ⟨hle, hne⟩
  exact Std.lt_of_le_of_ne hle fun heq => hne (FundingKey.id_of_bytes heq)

/-- A record is taken unless its value cannot be added. -/
theorem collectFrom_cons {acc : ℕ} {r : FundingRecord} {rest : List FundingRecord}
    {repo : FundingRepo} {funds : List (AsBox DistributionFunding)} (hlt : acc < target) :
    (acc + r.ergValue < 2 ^ 64 → collectFrom target (r :: rest) repo acc funds =
      collectFrom target rest (repo.select r) (acc + r.ergValue) (funds ++ [r.box])) ∧
    (2 ^ 64 ≤ acc + r.ergValue →
      (collectFrom target (r :: rest) repo acc funds).2 = .crash) := by
  constructor
  · intro hfits
    have hadd : (Outcome.checkedAdd 64 acc r.box.value.ergValue : Outcome Unit ℕ) =
        .ok (acc + r.ergValue) := Outcome.checkedAdd_eq_ok.mpr ⟨hfits, rfl⟩
    rw [collectFrom, if_neg (by omega), hadd]
  · intro hover
    have hadd : (Outcome.checkedAdd 64 acc r.box.value.ergValue : Outcome Unit ℕ) = .crash := by
      by_contra hne
      have hfits : acc + r.ergValue < 2 ^ 64 := Outcome.checkedAdd_ne_crash.mp hne
      omega
    rw [collectFrom, if_neg (by omega), hadd]

/-- Without an overflow the loop takes what is needed to reach the target, and selects that. -/
theorem collectFrom_eq {acc : ℕ} {rs : List FundingRecord} {repo : FundingRepo}
    {funds : List (AsBox DistributionFunding)}
    (hfits : ∀ first r rest, rs = first ++ r :: rest →
      acc + total FundingRecord.ergValue first < target →
      acc + total FundingRecord.ergValue first + r.ergValue < 2 ^ 64) :
    collectFrom target rs repo acc funds =
      ((reach FundingRecord.ergValue (target - acc) rs).foldl select repo,
        .ok (acc + total FundingRecord.ergValue (reach FundingRecord.ergValue (target - acc) rs),
          funds ++ (reach FundingRecord.ergValue (target - acc) rs).map FundingRecord.box)) := by
  induction rs generalizing acc repo funds with
  | nil => simp [collectFrom]
  | cons r rs ih =>
      by_cases hreached : target ≤ acc
      case pos =>
        rw [collectFrom, if_pos hreached, Nat.sub_eq_zero_of_le hreached]
        simp
      case neg =>
        have hlt : acc < target := not_le.mp hreached
        have hr : acc + r.ergValue < 2 ^ 64 := by simpa using hfits [] r rs rfl (by simpa using hlt)
        rw [(collectFrom_cons hlt).1 hr, reach_cons (by omega), ih, Nat.sub_sub]
        · simp [Nat.add_assoc]
        · intro first r' rest heq hlt'
          have hnext := hfits (r :: first) r' rest (by rw [heq]; rfl)
          simp only [total_cons, ← Nat.add_assoc] at hnext
          exact hnext hlt'

/-- The loop adds up what it takes, and may fail at that. -/
theorem collectFrom_crash {acc : ℕ} {first rest : List FundingRecord} {r : FundingRecord}
    {repo : FundingRepo} {funds : List (AsBox DistributionFunding)}
    (hlt : acc + total FundingRecord.ergValue first < target)
    (hover : 2 ^ 64 ≤ acc + total FundingRecord.ergValue first + r.ergValue) :
    (collectFrom target (first ++ r :: rest) repo acc funds).2 = .crash := by
  induction first generalizing acc repo funds with
  | nil => exact (collectFrom_cons (by simpa using hlt)).2 (by simpa using hover)
  | cons c first ih =>
      rw [total_cons] at hlt hover
      have hacc : acc < target := by omega
      by_cases hc : acc + c.ergValue < 2 ^ 64
      case pos =>
        rw [List.cons_append, (collectFrom_cons hacc).1 hc]
        exact ih (by omega) (by omega)
      case neg => exact (collectFrom_cons hacc).2 (by omega)

/-! ## The store after it -/

/-- The records taken are selected, and all others are left. -/
theorem mem_foldl_select {taken : List FundingRecord} {repo : FundingRepo}
    (hsound : repo.Sound FundingRecord.id) (htaken : ∀ r ∈ taken, r ∈ repo.records.entries)
    (hnodup : (taken.map FundingRecord.id).Nodup) (r : FundingRecord) :
    r ∈ (taken.foldl select repo).records.entries ↔
      (∃ r' ∈ taken, r = r'.selected) ∨ r ∈ repo.records.entries ∧ r ∉ taken := by
  induction taken generalizing repo with
  | nil => simp
  | cons t rest ih =>
      obtain ⟨hid, hrest⟩ := List.nodup_cons.mp hnodup
      have hother : ∀ r' ∈ rest, r'.id ≠ t.id := fun r' hr' heq =>
        hid (heq ▸ List.mem_map_of_mem hr')
      have ht := htaken t List.mem_cons_self
      have hselect : (repo.select t).Sound FundingRecord.id :=
        Indexed.sound_replace (fun _ _ => FundingRecord.id_of_key) hsound ht t.id_selected
      have hmem : r ∈ (repo.select t).records.entries ↔
          r = t.selected ∨ r ∈ repo.records.entries ∧ r ≠ t := by
        refine Indexed.mem_replace.trans (or_congr_right (and_congr_right fun hr => ?_))
        constructor
        · rintro ⟨-, hne⟩ rfl
          exact hne rfl
        · intro hne
          have hids : r.id ≠ t.id := fun heq => hne (hsound.unique r hr t ht heq)
          exact ⟨fun heq => hids ((FundingRecord.id_of_key heq).trans t.id_selected),
            fun heq => hids (FundingRecord.id_of_key heq)⟩
      have hselected : t.selected ∉ rest := fun h => hother _ h rfl
      rw [List.foldl_cons, ih hselect (fun r' hr' => mem_select (hother r' hr')
        (htaken r' (List.mem_cons_of_mem t hr'))) hrest, hmem, List.mem_cons, not_or]
      constructor
      · rintro (⟨r', hr', rfl⟩ | ⟨rfl | ⟨hr, hne⟩, hnot⟩)
        · exact .inl ⟨r', List.mem_cons_of_mem t hr', rfl⟩
        · exact .inl ⟨t, List.mem_cons_self, rfl⟩
        · exact .inr ⟨hr, hne, hnot⟩
      · rintro (⟨r', hr', rfl⟩ | ⟨hr, hne, hnot⟩)
        · rcases List.mem_cons.mp hr' with rfl | hr'
          · exact .inr ⟨.inl rfl, hselected⟩
          · exact .inl ⟨r', hr', rfl⟩
        · exact .inr ⟨.inr ⟨hr, hne⟩, hnot⟩

/-- The repository holds the same records, and its index leads to them. -/
structure Unchanged (repo repo' : FundingRepo) : Prop where
  records : ∀ r, r ∈ repo'.records.entries ↔ r ∈ repo.records.entries
  index : repo'.index = repo.index

/-- The records of a sound store determine its index. -/
theorem unchanged_of_records {repo repo' : FundingRepo} (hsound : repo.Sound FundingRecord.id)
    (hsound' : repo'.Sound FundingRecord.id)
    (h : ∀ r, r ∈ repo'.records.entries ↔ r ∈ repo.records.entries) : Unchanged repo repo' := by
  refine ⟨h, Store.ext (funext fun fid => Option.ext fun key => ?_)⟩
  constructor
  · intro hget
    obtain ⟨r, hr, rfl, rfl⟩ := hsound'.pointed fid key hget
    exact hsound.indexed r ((h r).mp hr)
  · intro hget
    obtain ⟨r, hr, rfl, rfl⟩ := hsound.pointed fid key hget
    exact hsound'.indexed r ((h r).mpr hr)

/-! ## The outcome -/

/-- The sum of the values of the records. -/
def funds (repo : FundingRepo) : ℕ := total FundingRecord.ergValue repo.records.entries

/-- The sum of the values of the records that come before `r` in the order of the keys. -/
def fundsBelow (repo : FundingRepo) (r : FundingRecord) : ℕ :=
  total FundingRecord.ergValue (below FundingRecord.Lt repo.records.entries r)

/-- No value that is needed makes the sum overflow. -/
def FitsSum (repo : FundingRepo) (target : ℕ) : Prop :=
  ∀ r ∈ repo.records.entries, repo.fundsBelow r < target →
    repo.fundsBelow r + r.ergValue < 2 ^ 64

/-- What `collect` takes. -/
def taken (repo : FundingRepo) (target : ℕ) : List FundingRecord :=
  reach FundingRecord.ergValue target repo.sorted

theorem total_sorted : total FundingRecord.ergValue repo.sorted = repo.funds :=
  total_perm repo.perm_sorted

theorem fundsBelow_eq (hsound : repo.Sound FundingRecord.id) {first rest : List FundingRecord}
    {r : FundingRecord} (h : repo.sorted = first ++ r :: rest) :
    repo.fundsBelow r = total FundingRecord.ergValue first := by
  have hsorted := pairwise_sorted hsound
  rw [h] at hsorted
  rw [fundsBelow, total_below_perm repo.perm_sorted.symm, h, below_append hsorted]

theorem mem_taken {r : FundingRecord} (h : r ∈ repo.taken target) : r ∈ repo.records.entries :=
  repo.perm_sorted.subset (reach_isPrefix.subset h)

theorem nodup_ids_taken (hsound : repo.Sound FundingRecord.id) :
    ((repo.taken target).map FundingRecord.id).Nodup :=
  (repo.nodup_ids_sorted hsound).sublist (reach_isPrefix.sublist.map FundingRecord.id)

theorem collect_loop (hsound : repo.Sound FundingRecord.id) (hfits : repo.FitsSum target) :
    collectFrom target repo.sorted repo 0 [] =
      ((repo.taken target).foldl select repo,
        .ok (total FundingRecord.ergValue (repo.taken target),
          (repo.taken target).map FundingRecord.box)) := by
  have hsum : ∀ first r rest, repo.sorted = first ++ r :: rest →
      0 + total FundingRecord.ergValue first < target →
      0 + total FundingRecord.ergValue first + r.ergValue < 2 ^ 64 := by
    intro first r rest heq hlt
    rw [Nat.zero_add, ← fundsBelow_eq hsound heq] at hlt ⊢
    exact hfits r (repo.perm_sorted.subset (heq ▸ by simp)) hlt
  rw [collectFrom_eq hsum, Nat.sub_zero, Nat.zero_add, List.nil_append]
  rfl

theorem collect_of_le (hsound : repo.Sound FundingRecord.id) (hfits : repo.FitsSum target)
    (hpos : 0 < target) (hle : target ≤ repo.funds) :
    ∃ boxes, repo.collect target = ((repo.taken target).foldl select repo, .ok boxes) ∧
      boxes.toList = (repo.taken target).map FundingRecord.box := by
  have hreached : target ≤ total FundingRecord.ergValue (repo.taken target) :=
    le_total_reach (total_sorted.symm ▸ hle)
  obtain ⟨r, rest, htaken⟩ : ∃ r rest, repo.taken target = r :: rest := by
    apply List.exists_cons_of_ne_nil
    intro hnil
    rw [hnil, total_nil] at hreached
    omega
  refine ⟨⟨r.box, rest.map FundingRecord.box⟩, ?_, by rw [htaken]; rfl⟩
  rw [collect, collect_loop hsound hfits]
  dsimp only
  rw [Outcome.ok_bind]
  dsimp only
  rw [if_pos hreached, htaken]
  rfl

theorem collect_of_lt (hsound : repo.Sound FundingRecord.id) (hfits : repo.FitsSum target)
    (hlt : repo.funds < target) :
    repo.collect target = (repo.sorted.foldl select repo, .err ()) := by
  have htaken : repo.taken target = repo.sorted := reach_eq_self (total_sorted.symm ▸ hlt)
  have htotal : ¬ target ≤ total FundingRecord.ergValue (repo.taken target) := by
    rw [htaken, total_sorted]
    omega
  rw [collect, collect_loop hsound hfits]
  dsimp only
  rw [Outcome.ok_bind]
  dsimp only
  rw [if_neg htotal, htaken]

theorem collect_crash (hsound : repo.Sound FundingRecord.id) {r : FundingRecord}
    (hr : r ∈ repo.records.entries) (hlt : repo.fundsBelow r < target)
    (hover : 2 ^ 64 ≤ repo.fundsBelow r + r.ergValue) :
    (repo.collect target).2 = .crash ∧ 2 ^ 64 ≤ repo.funds := by
  obtain ⟨first, rest, heq⟩ := List.append_of_mem (repo.perm_sorted.mem_iff.mpr hr)
  rw [fundsBelow_eq hsound heq] at hlt hover
  constructor
  · have hloop : (collectFrom target repo.sorted repo 0 []).2 = .crash := by
      rw [heq]
      exact collectFrom_crash (by rwa [Nat.zero_add]) (by rwa [Nat.zero_add])
    rw [collect]
    dsimp only
    rw [hloop, Outcome.crash_bind]
  · rw [← total_sorted, heq, total_append, total_cons]
    omega

/-- The funds that cover the target are taken in the order that is meant, and only they are
selected; without them nothing happens.  Of records of one class with one value either may come
first. -/
structure Collects (repo : FundingRepo) (target : ℕ) : Prop where
  covered : (∃ boxes, (repo.collect target).2 = .ok boxes) ↔ target ≤ repo.funds
  taken : ∀ boxes, (repo.collect target).2 = .ok boxes →
    ∃ ordered first : List FundingRecord, ordered.Perm repo.records.entries ∧
      ordered.Pairwise FundingRecord.Precedes ∧
      ShortestPrefix FundingRecord.ergValue target ordered first ∧
      boxes.toList = first.map FundingRecord.box ∧ (ids boxes).Nodup ∧
      ∀ r, r ∈ (repo.collect target).1.records.entries ↔
        (∃ r' ∈ first, r = r'.selected) ∨ r ∈ repo.records.entries ∧ r ∉ first
  failed : (repo.collect target).2 = .err () → Unchanged repo (repo.collect target).1

/-- No sum overflows.  If there are enough funds, no record that is needed to reach the target has a
smaller value than one of its class with a larger key; if there are not, all are selected. -/
structure InOrder (repo : FundingRepo) (target : ℕ) : Prop where
  fits : repo.FitsSum target
  ordered : target ≤ repo.funds → ∀ r ∈ repo.records.entries, repo.fundsBelow r < target →
    ∀ r' ∈ repo.records.entries, r.Lt r' → r.seqNum = r'.seqNum → r'.ergValue ≤ r.ergValue
  selected : repo.funds < target → ∀ r ∈ repo.records.entries, r.seqNum = selectedPriority

theorem eq_of_map_box_eq (hsound : repo.Sound FundingRecord.id) {rs rs' : List FundingRecord}
    (hrs : ∀ r ∈ rs, r ∈ repo.records.entries) (hrs' : ∀ r ∈ rs', r ∈ repo.records.entries)
    (h : rs.map FundingRecord.box = rs'.map FundingRecord.box) : rs = rs' := by
  induction rs generalizing rs' with
  | nil => exact (List.map_eq_nil_iff.mp h.symm).symm
  | cons r rest ih =>
      cases rs' with
      | nil => cases h
      | cons r' rest' =>
          obtain ⟨hbox, hrest⟩ := List.cons.inj h
          obtain ⟨hr, hrs⟩ := List.forall_mem_cons.mp hrs
          obtain ⟨hr', hrs'⟩ := List.forall_mem_cons.mp hrs'
          have hid : r.id = r'.id := congrArg (fun df => df.value.id) hbox
          rw [hsound.unique r hr r' hr' hid, ih hrs hrs' hrest]

/-- Of two records in the order of the keys, the first one is meant to come first if it does in its
class. -/
theorem precedes_iff (hcontent : repo.Content) {r r' : FundingRecord}
    (hr : r ∈ repo.records.entries) (hr' : r' ∈ repo.records.entries) (hlt : r.Lt r') :
    r.Precedes r' ↔ (r.seqNum = r'.seqNum → r'.ergValue ≤ r.ergValue) := by
  have hle := seqNum_le_of_lt (hcontent.classes r hr) (hcontent.classes r' hr') hlt
  unfold FundingRecord.Precedes
  omega

/-- With enough funds it is only the order of the keys that matters. -/
theorem collects_of_le (hcontent : repo.Content) (hfits : repo.FitsSum target) (hpos : 0 < target)
    (hle : target ≤ repo.funds) : repo.Collects target ↔
      ∀ r ∈ repo.records.entries, repo.fundsBelow r < target →
        ∀ r' ∈ repo.records.entries, r.Lt r' → r.Precedes r' := by
  have hsound := hcontent.sound
  obtain ⟨boxes, hcollect, hboxes⟩ := collect_of_le hsound hfits hpos hle
  have hok : (repo.collect target).2 = .ok boxes := by rw [hcollect]
  have horder := exists_reach_iff (r := FundingRecord.Precedes) (pairwise_sorted hsound)
    (total_sorted.symm ▸ hle : target ≤ total FundingRecord.ergValue repo.sorted)
  simp only [repo.perm_sorted.mem_iff, total_below_perm repo.perm_sorted] at horder
  refine Iff.trans ?_ horder
  constructor
  · intro h
    obtain ⟨ordered, first, hperm, hordered, hfirst, hmap, -⟩ := h.taken boxes hok
    obtain ⟨-, rfl⟩ := shortestPrefix_iff.mp hfirst
    refine ⟨ordered, hperm.trans repo.perm_sorted.symm, hordered, ?_⟩
    exact eq_of_map_box_eq hsound (fun r hr => hperm.subset (reach_isPrefix.subset hr))
      (fun r hr => mem_taken hr) (hmap.symm.trans hboxes)
  · rintro ⟨ordered, hperm, hordered, htaken⟩
    have hperm' := hperm.trans repo.perm_sorted
    refine ⟨iff_of_true ⟨boxes, hok⟩ hle, ?_, ?_⟩
    · intro boxes' hok'
      obtain rfl := Outcome.ok.inj (hok.symm.trans hok')
      have hfirst : ShortestPrefix FundingRecord.ergValue target ordered (repo.taken target) :=
        shortestPrefix_iff.mpr ⟨(total_perm hperm').symm ▸ hle, htaken⟩
      refine ⟨ordered, repo.taken target, hperm', hordered, hfirst, hboxes,
        nodup_ids_of_collect hsound hok, ?_⟩
      intro r
      rw [hcollect]
      exact mem_foldl_select hsound (fun r hr => mem_taken hr) (nodup_ids_taken hsound) r
    · intro herr
      cases hok.symm.trans herr

/-- Without enough funds it matters whether there is anything to select. -/
theorem collects_of_lt (hcontent : repo.Content) (hfits : repo.FitsSum target)
    (hlt : repo.funds < target) : repo.Collects target ↔
      ∀ r ∈ repo.records.entries, r.seqNum = selectedPriority := by
  have hsound := hcontent.sound
  have hcollect := collect_of_lt hsound hfits hlt
  have herr : (repo.collect target).2 = .err () := by rw [hcollect]
  have hnok : ∀ boxes, (repo.collect target).2 ≠ .ok boxes := by
    intro boxes hok
    cases herr.symm.trans hok
  have hmem : ∀ r, r ∈ (repo.collect target).1.records.entries ↔
      ∃ r' ∈ repo.records.entries, r = r'.selected := by
    intro r
    rw [hcollect]
    refine (mem_foldl_select hsound (fun r hr => repo.perm_sorted.subset hr)
      (repo.nodup_ids_sorted hsound) r).trans ?_
    simp only [repo.perm_sorted.mem_iff, and_not_self, or_false]
  constructor
  · intro h r hr
    obtain ⟨r', -, rfl⟩ := (hmem r).mp (((h.failed herr).records r).mpr hr)
    rfl
  · intro h
    have hself : ∀ r ∈ repo.records.entries, r.selected = r := by
      intro r hr
      rw [FundingRecord.selected, ← h r hr]
    refine ⟨iff_of_false (fun ⟨boxes, hok⟩ => hnok boxes hok) (by omega),
      fun boxes hok => absurd hok (hnok boxes), fun _ => ?_⟩
    refine unchanged_of_records hsound (sound_collect hsound target) fun r => (hmem r).trans ?_
    constructor
    · rintro ⟨r', hr', rfl⟩
      rwa [hself r' hr']
    · intro hr
      exact ⟨r, hr, (hself r hr).symm⟩

theorem collects_iff (repo : FundingRepo) (target : ℕ) (hcontent : repo.Content)
    (hpos : 0 < target) (hfit : target < 2 ^ 64) : repo.Collects target ↔ repo.InOrder target := by
  by_cases hfits : repo.FitsSum target
  case neg =>
    refine iff_of_false (fun h => ?_) fun h => hfits h.fits
    unfold FitsSum at hfits
    push Not at hfits
    obtain ⟨r, hr, hlt, hover⟩ := hfits
    obtain ⟨hcrash, hfunds⟩ := collect_crash hcontent.sound hr hlt hover
    obtain ⟨boxes, hok⟩ := h.covered.mpr (by omega)
    cases hcrash.symm.trans hok
  case pos =>
    rcases Nat.lt_or_ge repo.funds target with hlt | hle
    · rw [collects_of_lt hcontent hfits hlt]
      constructor
      · exact fun h => ⟨hfits, fun hle => absurd hle (by omega), fun _ => h⟩
      · exact fun h => h.selected hlt
    · rw [collects_of_le hcontent hfits hpos hle]
      constructor
      · intro h
        refine ⟨hfits, fun _ r hr hbelow r' hr' hlt => ?_, fun hlt => absurd hlt (by omega)⟩
        exact (precedes_iff hcontent hr hr' hlt).mp (h r hr hbelow r' hr' hlt)
      · intro h r hr hbelow r' hr' hlt
        exact (precedes_iff hcontent hr hr' hlt).mpr (h.ordered hle r hr hbelow r' hr' hlt)

/-! ## The stores of runs -/

theorem classes_collectFrom {acc : ℕ} {rs : List FundingRecord} {repo : FundingRepo}
    {funds : List (AsBox DistributionFunding)}
    (h : ∀ r ∈ repo.records.entries, r.seqNum ∈ priorities) :
    ∀ r ∈ (collectFrom target rs repo acc funds).1.records.entries, r.seqNum ∈ priorities := by
  induction rs generalizing repo acc funds with
  | nil => exact h
  | cons c rs ih =>
      have hselect : ∀ r ∈ (repo.select c).records.entries, r.seqNum ∈ priorities := by
        intro r hr
        rcases Indexed.mem_replace.mp hr with rfl | ⟨hr, -⟩
        · exact (by decide : selectedPriority ∈ priorities)
        · exact h r hr
      unfold collectFrom
      split
      · exact h
      · split
        · exact ih hselect
        · exact h
        · exact h

theorem classes_exec {call : FundingCall} (h : ∀ r ∈ repo.records.entries, r.seqNum ∈ priorities) :
    ∀ r ∈ (call.exec repo).records.entries, r.seqNum ∈ priorities := by
  intro r hr
  cases call with
  | putConfirmed df =>
      rcases Indexed.mem_write.mp hr with rfl | ⟨hr, -⟩
      · exact (by decide : confirmedPriority ∈ priorities)
      · exact h r hr
  | putPredicted df =>
      rcases Indexed.mem_write.mp hr with rfl | ⟨hr, -⟩
      · exact (by decide : predictedPriority ∈ priorities)
      · exact h r hr
  | collect target => exact classes_collectFrom h r hr
  | remove fid => exact h r (Indexed.mem_entries_remove.mp hr).1

/-- As long as no box is put that has a record under another key, every box has one record. -/
theorem content_of_run {calls : List FundingCall}
    (hrun : Transition.Run (Transition.restrict Step FitsPut) .empty calls repo) :
    repo.Content := by
  refine hrun.invariant (I := Content) ?_ ⟨Indexed.sound_empty, fun r hr => by cases hr⟩
  rintro repo call _ hrepo ⟨rfl, hfits⟩
  exact ⟨(sound_exec_iff hrepo.sound call).mpr hfits, classes_exec hrepo.classes⟩

end FundingRepo

/-! ## A small box first -/

namespace Sample

/-- A box of the wallet with an id and a value. -/
def funding (n : UInt8) (value : ℕ) : AsBox DistributionFunding where
  bx := { residual.bx with boxId := boxId n }
  value := ⟨⟨boxId n⟩, ⟨[2]⟩, value⟩

/-- The store after two boxes were confirmed. -/
def wallet : FundingRepo :=
  (FundingRepo.putConfirmed .empty (funding 0 1000000)).putConfirmed (funding 2 4000000)

theorem content_wallet : wallet.Content := by
  have hrun : Transition.Run (Transition.restrict FundingRepo.Step FundingRepo.FitsPut) .empty
      [.putConfirmed (funding 0 1000000), .putConfirmed (funding 2 4000000)] wallet := by
    refine .cons ⟨rfl, ?_⟩ (.single ⟨rfl, ?_⟩)
    · rintro r - key hkey
      cases hkey
    · rintro r hr key hkey
      cases hr
      have hnone : (FundingRepo.putConfirmed .empty (funding 0 1000000)).index.get
          (funding 2 4000000).value.id = none := by decide
      cases hnone.symm.trans hkey
  exact FundingRepo.content_of_run hrun

end Sample

open Sample in
/-- The lowest byte of the negated value is smaller for the smaller box, which is collected as well
although the other one covers the target.  Where the two do not suffice, they are selected. -/
theorem small_box_first :
    (wallet.collect 4000000).2 = .ok ⟨funding 0 1000000, [funding 2 4000000]⟩ ∧
      ¬ wallet.Collects 4000000 ∧
      (wallet.collect 8000000).2 = .err () ∧ ¬ wallet.Collects 8000000 := by
  have hfits : ∀ target, wallet.FitsSum target := by
    have h : ∀ r ∈ wallet.records.entries, wallet.fundsBelow r + r.ergValue < 2 ^ 64 := by decide
    exact fun target r hr _ => h r hr
  have hsmall : ⟨confirmedPriority, funding 0 1000000⟩ ∈ wallet.records.entries := by decide
  have hlarge : ⟨confirmedPriority, funding 2 4000000⟩ ∈ wallet.records.entries := by decide
  refine ⟨by decide, fun h => ?_, by decide, fun h => ?_⟩
  · have hprecedes := (FundingRepo.collects_of_le content_wallet (hfits _) (by decide)
      (by decide)).mp h _ hsmall (by decide) _ hlarge (by decide)
    exact absurd hprecedes (by decide)
  · have hselected :=
      (FundingRepo.collects_of_lt content_wallet (hfits _) (by decide)).mp h _ hsmall
    exact absurd hselected (by decide)

open Sample in
theorem collects_iff_wallet : wallet.Collects 4000000 ↔ wallet.InOrder 4000000 :=
  FundingRepo.collects_iff wallet 4000000 content_wallet (by decide) (by decide)

end SpectrumOffchain.Funding

import SpectrumOffchain.Executor.Invalidation

/-!
# Reading the error of the node

The indices of the missing inputs stand at the end of the error, after a marker and before a
closing bracket (`EndsInIndices`).  An error of this form is read as meant, whatever stands before
the marker (`parseErr_of_endsInIndices`), and so is every error without the marker.

Of the errors with the marker that do not have this form none is read as meant: there is no branch
for them.  Either an index that cannot be parsed is unwrapped, or, if another character stands in
the place of the bracket, that character is cut off (`parseErr_eq_missingInputs_iff`).

## Strategy

The parser is followed from the inside out.  `SpellsI32` are the spellings of a number, the
parser of numbers accepts exactly these (`parseI32_eq_some`), with blanks around them after
trimming (`SpellsPadded`), and a list of them is what is left between the commas
(`mapM_splitText_eq_ok`).  No spelling has a comma, a bracket or the marker in it
(`SpellsI32.of_mem`), so the pieces and the end of the list can be told.

Conversely the node prints indices in one particular way (`displayIndices`), and what it
prints is a spelling of them.
-/

namespace SpectrumOffchain

variable {ε : Type} {err : String} {s : List Char} {i : I32}

/-! ## Spellings of indices -/

/-- The text is a decimal spelling of the index. -/
inductive SpellsI32 : List Char → I32 → Prop
  | plain {digits : List Char} {n : ℕ} : SpellsNat digits n → n < 2 ^ 31 →
      SpellsI32 digits (.ofNat 32 n)
  | plus {digits : List Char} {n : ℕ} : SpellsNat digits n → n < 2 ^ 31 →
      SpellsI32 ('+' :: digits) (.ofNat 32 n)
  | minus {digits : List Char} {n : ℕ} : SpellsNat digits n → n ≤ 2 ^ 31 →
      SpellsI32 ('-' :: digits) (.ofInt 32 (-n))

theorem parseI32_eq_some : parseI32 s = some i ↔ SpellsI32 s i := by
  constructor
  · intro h
    unfold parseI32 at h
    split at h
    all_goals
      obtain ⟨n, hn, h⟩ := Option.bind_eq_some_iff.mp h
      obtain ⟨hfits, h⟩ := Option.ite_none_right_eq_some.mp h
      obtain rfl := Option.some.inj h
      have hspells := parseDigits_eq_some.mp hn
    · exact .minus hspells hfits
    · exact .plus hspells hfits
    · exact .plain hspells hfits
  · rintro (⟨hspells, hfits⟩ | ⟨hspells, hfits⟩ | ⟨hspells, hfits⟩)
    case plain n =>
      have hdigit : ∀ c ∈ s, c.isDigit := hspells.isDigit
      unfold parseI32
      split
      case h_1 digits => exact absurd (hdigit '-' List.mem_cons_self) (by decide)
      case h_2 digits => exact absurd (hdigit '+' List.mem_cons_self) (by decide)
      case h_3 => rw [parseDigits_eq_some.mpr hspells, Option.bind_some, if_pos hfits]
    case plus n digits =>
      rw [parseI32, parseDigits_eq_some.mpr hspells, Option.bind_some, if_pos hfits]
    case minus n digits =>
      rw [parseI32, parseDigits_eq_some.mpr hspells, Option.bind_some, if_pos hfits]

theorem SpellsI32.ne_nil (h : SpellsI32 s i) : s ≠ [] := by
  cases h with
  | plain hspells => exact hspells.ne_nil
  | plus => exact List.cons_ne_nil _ _
  | minus => exact List.cons_ne_nil _ _

/-- No character of a spelling is taken for something else. -/
theorem SpellsI32.of_mem (h : SpellsI32 s i) {c : Char} (hc : c ∈ s) :
    c.isDigit ∨ c = '+' ∨ c = '-' := by
  cases h with
  | plain hspells => exact .inl (hspells.isDigit c hc)
  | plus hspells =>
      rcases List.mem_cons.mp hc with rfl | hc
      · exact .inr (.inl rfl)
      · exact .inl (hspells.isDigit c hc)
  | minus hspells =>
      rcases List.mem_cons.mp hc with rfl | hc
      · exact .inr (.inr rfl)
      · exact .inl (hspells.isDigit c hc)

theorem SpellsI32.not_isWhitespace (h : SpellsI32 s i) : ∀ c ∈ s, ¬ isWhitespace c := by
  intro c hc
  rcases h.of_mem hc with hdigit | rfl | rfl
  · have hcode := toNat_of_isDigit hdigit
    exact not_isWhitespace_of_ascii (by omega)
  · exact not_isWhitespace_of_ascii (by decide)
  · exact not_isWhitespace_of_ascii (by decide)

/-- The text is a spelling of the index with white space around it. -/
def SpellsPadded (piece : List Char) (i : I32) : Prop :=
  ∃ left number right, piece = left ++ number ++ right ∧ (∀ c ∈ left, isWhitespace c) ∧
    (∀ c ∈ right, isWhitespace c) ∧ SpellsI32 number i

theorem parseI32_trim_eq_some {piece : List Char} :
    parseI32 (trim piece) = some i ↔ SpellsPadded piece i := by
  rw [parseI32_eq_some]
  constructor
  · intro h
    obtain ⟨left, right, heq, hleft, hright⟩ := exists_trim_append piece
    exact ⟨left, trim piece, right, heq, hleft, hright, h⟩
  · rintro ⟨left, number, right, rfl, hleft, hright, h⟩
    rwa [trim_append hleft hright h.not_isWhitespace h.ne_nil]

theorem SpellsPadded.of_mem {piece : List Char} (h : SpellsPadded piece i) {c : Char}
    (hc : c ∈ piece) : isWhitespace c ∨ c.isDigit ∨ c = '+' ∨ c = '-' := by
  obtain ⟨left, number, right, rfl, hleft, hright, hnumber⟩ := h
  rcases List.mem_append.mp hc with hc | hc
  · rcases List.mem_append.mp hc with hc | hc
    · exact .inl (hleft c hc)
    · exact .inr (hnumber.of_mem hc)
  · exact .inl (hright c hc)

theorem of_mem_pieces {pieces : List (List Char)} {indices : List I32}
    (h : List.Forall₂ SpellsPadded pieces indices) :
    ∀ piece ∈ pieces, ∀ c ∈ piece, isWhitespace c ∨ c.isDigit ∨ c = '+' ∨ c = '-' :=
  ((List.forall₂_and_left _ _).mp (h.imp fun _ _ hi => ⟨fun _ hc => hi.of_mem hc, hi⟩)).1

/-- The text is a list of spellings, separated by commas. -/
def SpellsList (list : List Char) (indices : List I32) : Prop :=
  indices ≠ [] ∧ ∃ pieces, list = [','].intercalate pieces ∧
    List.Forall₂ SpellsPadded pieces indices

theorem SpellsList.of_mem {list : List Char} {indices : List I32} (h : SpellsList list indices)
    {c : Char} (hc : c ∈ list) : c = ',' ∨ isWhitespace c ∨ c.isDigit ∨ c = '+' ∨ c = '-' := by
  obtain ⟨-, pieces, rfl, hpieces⟩ := h
  rcases mem_of_mem_intercalate hc with hc | ⟨piece, hpiece, hc⟩
  · exact .inl (List.mem_singleton.mp hc)
  · exact .inr (of_mem_pieces hpieces piece hpiece c hc)

/-- The parser of the indices reads the lists. -/
theorem mapM_splitText_eq_ok {list : List Char} {indices : List I32} :
    ((splitText [','] 0 list).mapM fun s => .unwrap (parseI32 (trim s)) : Outcome ε _) =
      .ok indices ↔ SpellsList list indices := by
  rw [Outcome.mapM_eq_ok_iff, splitText_singleton]
  simp only [Outcome.unwrap_eq_ok, parseI32_trim_eq_some]
  constructor
  · intro h
    refine ⟨?_, _, (List.intercalate_splitOn ',').symm, h⟩
    rintro rfl
    exact List.splitOn_ne_nil _ _ (List.forall₂_nil_right_iff.mp h)
  · rintro ⟨hne, pieces, rfl, hpieces⟩
    have hfree : ∀ piece ∈ pieces, ',' ∉ piece := by
      intro piece hpiece hc
      exact absurd (of_mem_pieces hpieces piece hpiece ',' hc) (by decide)
    rw [List.splitOn_intercalate _ hfree]
    · exact hpieces
    · rintro rfl
      exact hne (List.forall₂_nil_left_iff.mp hpieces)

/-! ## Displayed indices -/

/-- An index as it is displayed. -/
def displayI32 (i : I32) : List Char :=
  if i.toInt < 0 then '-' :: Nat.toDigits 10 i.toInt.natAbs else Nat.toDigits 10 i.toInt.natAbs

/-- The indices joined by a comma and a blank. -/
def displayIndices (indices : List I32) : List Char :=
  ", ".toList.intercalate (indices.map displayI32)

theorem spellsI32_displayI32 (i : I32) : SpellsI32 (displayI32 i) i := by
  have hlower := BitVec.le_toInt i
  have hupper := BitVec.toInt_lt (x := i)
  have hspells := spellsNat_toDigits i.toInt.natAbs
  unfold displayI32
  split
  case isTrue hneg =>
    have hi : BitVec.ofInt 32 (-(i.toInt.natAbs : ℤ)) = i := by
      rw [Int.ofNat_natAbs_of_nonpos hneg.le, neg_neg, BitVec.ofInt_toInt]
    have h := SpellsI32.minus hspells (by omega)
    rwa [hi] at h
  case isFalse hnonneg =>
    have hi : BitVec.ofNat 32 i.toInt.natAbs = i := by
      rw [← BitVec.ofInt_natCast, Int.natAbs_of_nonneg (by omega), BitVec.ofInt_toInt]
    have h := SpellsI32.plain hspells (by omega)
    rwa [hi] at h

theorem spellsPadded_displayI32 (i : I32) :
    SpellsPadded (displayI32 i) i ∧ SpellsPadded (' ' :: displayI32 i) i := by
  have hspells := spellsI32_displayI32 i
  have hnone : ∀ c ∈ ([] : List Char), isWhitespace c := fun _ hc => absurd hc List.not_mem_nil
  constructor
  · exact ⟨[], displayI32 i, [], by simp, hnone, hnone, hspells⟩
  · have hblank : ∀ c ∈ [' '], isWhitespace c := fun c hc => by
      rw [List.mem_singleton.mp hc]
      rfl
    exact ⟨[' '], displayI32 i, [], by simp, hblank, hnone, hspells⟩

theorem spellsList_displayIndices {indices : List I32} (h : indices ≠ []) :
    SpellsList (displayIndices indices) indices := by
  obtain ⟨i, rest, rfl⟩ := List.exists_cons_of_ne_nil h
  refine ⟨h, displayI32 i :: (rest.map displayI32).map (' ' :: ·), intercalate_pair,
    .cons (spellsPadded_displayI32 i).1 ?_⟩
  rw [List.map_map, List.forall₂_map_left_iff, List.forall₂_same]
  exact fun j _ => (spellsPadded_displayI32 j).2

/-! ## The error -/

/-- The marker in front of the indices. -/
def errorDescription : List Char := "Missing inputs: ".toList

/-- The error ends with the marker, a list of indices and a closing bracket. -/
def EndsInIndices (text : List Char) (indices : List I32) : Prop :=
  ∃ p list, text = p ++ errorDescription ++ (list ++ [']']) ∧ SpellsList list indices

theorem errorDescription_eq : errorDescription = 'M' :: "issing inputs: ".toList := by decide

/-- After the last marker the code goes on without looking back. -/
theorem parseErr_of_contains {p tail : List Char}
    (htext : err.toList = p ++ errorDescription ++ tail) (htail : ¬ errorDescription <:+: tail) :
    (parseErr err : Outcome ε _) = (do
      let indices ← dropLastByte tail
      let missingIndices ← (splitText [','] 0 indices).mapM fun s => .unwrap (parseI32 (trim s))
      pure (.missingInputs missingIndices)) := by
  have hcontains : containsText "Missing inputs: ".toList err.toList :=
    containsText_iff.mpr ⟨p, tail, htext.symm⟩
  have hlast : (splitText "Missing inputs: ".toList 0 err.toList).getLast? = some tail := by
    show (splitText errorDescription 0 err.toList).getLast? = some tail
    rw [errorDescription_eq] at htext htail ⊢
    rw [htext]
    exact getLast?_splitText (by decide) htail
  unfold parseErr
  dsimp only
  rw [if_pos hcontains, hlast]
  rfl

/-- The errors without a marker. -/
theorem parseErr_of_not_contains (h : ¬ errorDescription <:+: err.toList) :
    ∃ r, (parseErr err : Outcome ε _) = .ok r ∧ ∀ indices, r ≠ .missingInputs indices := by
  have hcontains : ¬ containsText "Missing inputs: ".toList err.toList :=
    fun hc => h (containsText_iff.mp hc)
  unfold parseErr
  dsimp only
  rw [if_neg hcontains]
  split
  · exact ⟨_, rfl, fun _ => NodeSubmitTxError.noConfusion⟩
  · split
    · exact ⟨_, rfl, fun _ => NodeSubmitTxError.noConfusion⟩
    · exact ⟨_, rfl, fun _ => NodeSubmitTxError.noConfusion⟩

/-- What is taken for an error about missing inputs.  Any character of one byte stands for the
bracket. -/
theorem parseErr_eq_missingInputs_iff {indices : List I32} :
    (parseErr err : Outcome ε _) = .ok (.missingInputs indices) ↔
      ∃ p list last, err.toList = p ++ errorDescription ++ (list ++ [last]) ∧
        ¬ errorDescription <:+: list ++ [last] ∧ last.utf8Size = 1 ∧ SpellsList list indices := by
  constructor
  · intro h
    by_cases hcontains : errorDescription <:+: err.toList
    case neg =>
      obtain ⟨r, hr, hne⟩ := parseErr_of_not_contains (ε := ε) hcontains
      exact absurd (Outcome.ok.inj (hr.symm.trans h)) (hne indices)
    case pos =>
      obtain ⟨p, tail, htext, htail⟩ := exists_last_infix (by decide) hcontains
      rw [parseErr_of_contains htext htail] at h
      obtain ⟨list, hlist, hread⟩ := Outcome.bind_eq_ok.mp h
      obtain ⟨missingIndices, hmissing, hread⟩ := Outcome.bind_eq_ok.mp hread
      cases hread
      obtain ⟨last, hbyte, rfl⟩ := dropLastByte_eq_ok.mp hlist
      exact ⟨p, list, last, htext, htail, hbyte, mapM_splitText_eq_ok.mp hmissing⟩
  · rintro ⟨p, list, last, htext, htail, hbyte, hlist⟩
    rw [parseErr_of_contains htext htail, dropLastByte_eq_ok.mpr ⟨last, hbyte, rfl⟩,
      Outcome.ok_bind, mapM_splitText_eq_ok.mpr hlist]
    rfl

/-- The error is read, and as what it says: the displayed indices after the first marker are the
missing inputs, and nothing but a list of indices is taken for them. -/
structure ReadAsMeant (ε : Type) (err : String) : Prop where
  total : ∃ r, (parseErr err : Outcome ε _) = .ok r
  displayed : ∀ p indices, ¬ errorDescription <:+: p → indices ≠ [] →
    err.toList = p ++ errorDescription ++ (displayIndices indices ++ [']']) →
    (parseErr err : Outcome ε _) = .ok (.missingInputs indices)
  malformed : (¬ ∃ indices, EndsInIndices err.toList indices) →
    ∀ indices, (parseErr err : Outcome ε _) ≠ .ok (.missingInputs indices)

theorem parseErr_of_endsInIndices {indices : List I32} (h : EndsInIndices err.toList indices) :
    (parseErr err : Outcome ε _) = .ok (.missingInputs indices) := by
  obtain ⟨p, list, htext, hlist⟩ := h
  refine parseErr_eq_missingInputs_iff.mpr
    ⟨p, list, ']', htext, fun hmarker => ?_, by decide, hlist⟩
  -- The first character of the marker is none of a list.
  have hmem : 'M' ∈ list ++ [']'] := hmarker.subset (by decide)
  rcases List.mem_append.mp hmem with hmem | hmem
  · exact absurd (hlist.of_mem hmem) (by decide)
  · exact absurd hmem (by decide)

theorem readAsMeant_iff (ε : Type) (err : String) : ReadAsMeant ε err ↔
    (errorDescription <:+: err.toList → ∃ indices, EndsInIndices err.toList indices) := by
  constructor
  · intro h hcontains
    by_contra hnot
    obtain ⟨p, tail, htext, htail⟩ := exists_last_infix (by decide) hcontains
    obtain ⟨r, hr⟩ := h.total
    have hread := hr
    rw [parseErr_of_contains htext htail] at hread
    obtain ⟨list, -, hread⟩ := Outcome.bind_eq_ok.mp hread
    obtain ⟨indices, -, hread⟩ := Outcome.bind_eq_ok.mp hread
    cases hread
    exact h.malformed hnot indices hr
  · intro h
    by_cases hcontains : errorDescription <:+: err.toList
    case pos =>
      obtain ⟨indices, hindices⟩ := h hcontains
      exact ⟨⟨_, parseErr_of_endsInIndices hindices⟩,
        fun p shown _ hne htext => parseErr_of_endsInIndices
          ⟨p, _, htext, spellsList_displayIndices hne⟩,
        fun hnot => absurd ⟨indices, hindices⟩ hnot⟩
    case neg =>
      obtain ⟨r, hr, hne⟩ := parseErr_of_not_contains (ε := ε) hcontains
      refine ⟨⟨r, hr⟩, fun p shown _ _ htext => absurd ⟨p, _, htext.symm⟩ hcontains, ?_⟩
      intro _ indices hmissing
      exact hne indices (Outcome.ok.inj (hr.symm.trans hmissing))

/-- The list of the missing inputs is empty. -/
theorem empty_list_crashes :
    (parseErr "Malformed tx. [400] [bad.request] [Missing inputs: ]" : Outcome Unit _) = .crash ∧
      ¬ ReadAsMeant Unit "Malformed tx. [400] [bad.request] [Missing inputs: ]" := by
  have hcrash : (parseErr "Malformed tx. [400] [bad.request] [Missing inputs: ]" :
      Outcome Unit _) = .crash := by decide +kernel
  refine ⟨hcrash, fun h => ?_⟩
  obtain ⟨r, hr⟩ := h.total
  cases hcrash.symm.trans hr

end SpectrumOffchain

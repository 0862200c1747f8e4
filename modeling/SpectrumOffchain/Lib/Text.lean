import Mathlib.Data.List.Induction
import Mathlib.Data.List.Infix
import Mathlib.Data.List.TakeWhile
import SpectrumOffchain.Lib.Outcome

/-!
# Texts

Texts as lists of characters, with the functions that a reader of messages needs: searching for
a pattern, splitting at it, trimming white space, reading decimal numbers.

A pattern whose first character does not occur in its rest has no two overlapping occurrences.
Splitting a text at such a pattern from the left therefore finds the last occurrence as well, and
what follows it is the last segment (`getLast?_splitText`).
-/

namespace SpectrumOffchain

/-! ## Functions on texts -/

/-- `err.contains(pattern)`. -/
def containsText (pattern text : List Char) : Bool := text.tails.any pattern.isPrefixOf

/-- `text.split(pattern)`, the next `skip` characters being part of a separator. -/
def splitText (pattern : List Char) : ℕ → List Char → List (List Char)
  | _, [] => [[]]
  | skip + 1, _ :: rest => splitText pattern skip rest
  | 0, c :: rest =>
      if pattern.isPrefixOf (c :: rest) then [] :: splitText pattern (pattern.length - 1) rest
      else match splitText pattern 0 rest with
        | segment :: segments => (c :: segment) :: segments
        | [] => [[c]]

/-- `&s[..s.len() - 1]`. -/
def dropLastByte {ε : Type} (s : List Char) : Outcome ε (List Char) :=
  match s.getLast? with
  | some c => if c.utf8Size = 1 then .ok s.dropLast else .crash
  | none => .crash

/-- `char::is_whitespace`. -/
def isWhitespace (c : Char) : Bool :=
  let n := c.toNat
  (0x9 ≤ n && n ≤ 0xd) || n == 0x20 || n == 0x85 || n == 0xa0 || n == 0x1680 ||
    (0x2000 ≤ n && n ≤ 0x200a) || n == 0x2028 || n == 0x2029 || n == 0x202f || n == 0x205f ||
    n == 0x3000

/-- `s.trim()`. -/
def trim (s : List Char) : List Char :=
  ((s.dropWhile isWhitespace).reverse.dropWhile isWhitespace).reverse

/-- The number that a text of decimal digits stands for. -/
def parseDigits : List Char → Option ℕ
  | [] => none
  | digits =>
      if digits.all Char.isDigit then
        some (digits.foldl (fun n c => 10 * n + (c.toNat - '0'.toNat)) 0)
      else none

variable {pattern text s t : List Char} {c : Char} {n : ℕ}

/-! ## Searching -/

theorem containsText_iff : containsText pattern text ↔ pattern <:+: text := by
  rw [containsText, List.any_eq_true, List.infix_iff_prefix_suffix]
  constructor
  · rintro ⟨t, ht, hstart⟩
    exact ⟨t, List.isPrefixOf_iff_prefix.mp hstart, List.mem_tails _ _ |>.mp ht⟩
  · rintro ⟨t, hstart, ht⟩
    exact ⟨t, List.mem_tails _ _ |>.mpr ht, List.isPrefixOf_iff_prefix.mpr hstart⟩

/-- A text that contains a pattern contains it for a last time. -/
theorem exists_last_infix (hpattern : pattern ≠ []) (h : pattern <:+: text) :
    ∃ p tail, text = p ++ pattern ++ tail ∧ ¬ pattern <:+: tail := by
  induction text with
  | nil => exact absurd (List.infix_nil.mp h) hpattern
  | cons c rest ih =>
      by_cases hrest : pattern <:+: rest
      case pos =>
        obtain ⟨p, tail, heq, htail⟩ := ih hrest
        exact ⟨c :: p, tail, by rw [heq]; rfl, htail⟩
      case neg =>
        obtain ⟨tail, heq⟩ := (List.infix_cons_iff.mp h).resolve_right hrest
        refine ⟨[], tail, heq.symm, fun htail => hrest ?_⟩
        -- The pattern has a first character, so that its tail is part of the rest.
        obtain ⟨first, others, rfl⟩ := List.exists_cons_of_ne_nil hpattern
        have hsuffix : tail <:+ rest := ⟨others, (List.cons.inj heq).2⟩
        exact htail.trans hsuffix.isInfix

/-! ## Splitting -/

theorem splitText_skip {skip : ℕ} :
    splitText pattern skip text = splitText pattern 0 (text.drop skip) := by
  induction text generalizing skip with
  | nil => cases skip <;> rfl
  | cons c rest ih =>
      cases skip with
      | zero => rfl
      | succ skip => exact ih

theorem splitText_append {rest : List Char} :
    splitText (c :: pattern) 0 (c :: pattern ++ rest) = [] :: splitText (c :: pattern) 0 rest := by
  have hstart : (c :: pattern).isPrefixOf (c :: (pattern ++ rest)) :=
    List.isPrefixOf_iff_prefix.mpr (List.prefix_append (c :: pattern) rest)
  rw [List.cons_append, splitText, if_pos hstart, splitText_skip, List.length_cons,
    Nat.add_sub_cancel, List.drop_left]

theorem splitText_cons {rest segment : List Char} {segments : List (List Char)}
    (h : ¬ pattern <+: c :: rest) (hrest : splitText pattern 0 rest = segment :: segments) :
    splitText pattern 0 (c :: rest) = (c :: segment) :: segments := by
  rw [splitText, if_neg fun hstart => h (List.isPrefixOf_iff_prefix.mp hstart), hrest]

theorem splitText_eq_singleton (h : ¬ pattern <:+: text) : splitText pattern 0 text = [text] := by
  induction text with
  | nil => rfl
  | cons c rest ih =>
      have hrest : ¬ pattern <:+: rest := fun hr => h (List.infix_cons_iff.mpr (.inr hr))
      exact splitText_cons (fun hp => h hp.isInfix) (ih hrest)

/-- An occurrence that starts before another one ends before it. -/
theorem length_le_of_prefix_append {p tail : List Char} (hc : c ∉ pattern)
    (h : pattern <+: p ++ c :: tail) : pattern.length ≤ p.length := by
  by_contra hlt
  have hget := h.getElem (i := p.length) (by omega)
  rw [List.getElem_append_right (Nat.le_refl _)] at hget
  simp only [Nat.sub_self, List.getElem_cons_zero] at hget
  exact hc (hget ▸ List.getElem_mem _)

theorem exists_splitText_append {tail : List Char} (hc : c ∉ pattern)
    (htail : ¬ c :: pattern <:+: tail) (p : List Char) :
    ∃ segment segments, splitText (c :: pattern) 0 (p ++ (c :: pattern) ++ tail) =
      (segment :: segments) ++ [tail] := by
  match p with
  | [] =>
      refine ⟨[], [], ?_⟩
      rw [List.nil_append, splitText_append, splitText_eq_singleton htail]
      rfl
  | d :: p =>
      by_cases hstart : c :: pattern <+: d :: (p ++ (c :: pattern) ++ tail)
      case pos =>
        obtain ⟨rfl, hp⟩ := List.cons_prefix_cons.mp hstart
        have hle : pattern.length ≤ p.length := by
          rw [List.append_assoc] at hp
          exact length_le_of_prefix_append hc hp
        obtain ⟨q, rfl⟩ := List.prefix_of_prefix_length_le hp
          (by rw [List.append_assoc]; exact List.prefix_append _ _) hle
        obtain ⟨segment, segments, heq⟩ := exists_splitText_append hc htail q
        refine ⟨[], segment :: segments, ?_⟩
        have hsplit : splitText (c :: pattern) 0
            (c :: pattern ++ (q ++ (c :: pattern) ++ tail)) =
              [] :: splitText (c :: pattern) 0 (q ++ (c :: pattern) ++ tail) := splitText_append
        rw [heq] at hsplit
        simpa [List.append_assoc] using hsplit
      case neg =>
        obtain ⟨segment, segments, heq⟩ := exists_splitText_append hc htail p
        exact ⟨d :: segment, segments, splitText_cons hstart heq⟩
  termination_by p.length

/-- The last segment of a text is what follows the last occurrence of the pattern. -/
theorem getLast?_splitText {p tail : List Char} (hc : c ∉ pattern)
    (htail : ¬ c :: pattern <:+: tail) :
    (splitText (c :: pattern) 0 (p ++ (c :: pattern) ++ tail)).getLast? = some tail := by
  obtain ⟨segment, segments, heq⟩ := exists_splitText_append hc htail p
  rw [heq, List.getLast?_concat]

theorem splitText_singleton : splitText [c] 0 text = text.splitOn c := by
  induction text with
  | nil => rfl
  | cons d rest ih =>
      rw [List.splitOn_cons_eq_if_modifyHead]
      by_cases hd : d = c
      case pos =>
        subst hd
        rw [if_pos (beq_self_eq_true d), ← ih]
        exact @splitText_append [] d rest
      case neg =>
        have hstart : ¬ [c] <+: d :: rest := fun h => hd (List.cons_prefix_cons.mp h).1.symm
        obtain ⟨segment, segments, heq⟩ := List.exists_cons_of_ne_nil (List.splitOn_ne_nil c rest)
        rw [if_neg (by simpa using hd), heq]
        exact splitText_cons hstart (ih.trans heq)

theorem mem_of_mem_intercalate {separator : List Char} {pieces : List (List Char)}
    (h : c ∈ separator.intercalate pieces) : c ∈ separator ∨ ∃ piece ∈ pieces, c ∈ piece := by
  induction pieces with
  | nil => exact absurd h List.not_mem_nil
  | cons piece rest ih =>
      cases rest with
      | nil =>
          rw [List.intercalate_singleton] at h
          exact .inr ⟨piece, List.mem_cons_self, h⟩
      | cons next rest =>
          rw [List.intercalate_cons_cons, List.mem_append, List.mem_append] at h
          rcases h with (h | h) | h
          · exact .inr ⟨piece, List.mem_cons_self, h⟩
          · exact .inl h
          · refine (ih h).imp_right ?_
            rintro ⟨piece', hmem, hc⟩
            exact ⟨piece', List.mem_cons_of_mem _ hmem, hc⟩

/-- The second character of a separator may be counted to the piece after it. -/
theorem intercalate_pair {d : Char} {piece : List Char} {rest : List (List Char)} :
    [c, d].intercalate (piece :: rest) = [c].intercalate (piece :: rest.map (d :: ·)) := by
  induction rest generalizing piece with
  | nil => rw [List.map_nil, List.intercalate_singleton, List.intercalate_singleton]
  | cons next rest ih =>
      rw [List.map_cons, List.intercalate_cons_cons, List.intercalate_cons_cons,
        List.intercalate_cons_cons_left, ih]
      simp

/-! ## Cutting -/

theorem dropLastByte_eq_ok {ε : Type} :
    (dropLastByte s : Outcome ε _) = .ok t ↔ ∃ c : Char, c.utf8Size = 1 ∧ s = t ++ [c] := by
  cases s using List.reverseRecOn with
  | nil => simp [dropLastByte]
  | append_singleton s last =>
      rw [dropLastByte, List.getLast?_concat, List.dropLast_concat]
      by_cases hlast : last.utf8Size = 1
      case pos =>
        simp only [if_pos hlast, Outcome.ok.injEq]
        constructor
        · rintro rfl
          exact ⟨last, hlast, rfl⟩
        · rintro ⟨c, -, heq⟩
          exact (List.append_inj' heq rfl).1
      case neg =>
        simp only [if_neg hlast, reduceCtorEq, false_iff]
        rintro ⟨c, hc, heq⟩
        cases (List.append_inj' heq rfl).2
        exact hlast hc

/-- Among the printable characters of ASCII only the blank is white space. -/
theorem not_isWhitespace_of_ascii (h : 0x20 < c.toNat ∧ c.toNat < 0x80) : ¬ isWhitespace c := by
  obtain ⟨hlower, hupper⟩ := h
  simp only [isWhitespace, Bool.or_eq_true, Bool.and_eq_true, decide_eq_true_eq, beq_iff_eq]
  omega

/-- A text is trimmed by what surrounds a part that neither starts nor ends with white space. -/
theorem trim_append {left right : List Char} (hleft : ∀ c ∈ left, isWhitespace c)
    (hright : ∀ c ∈ right, isWhitespace c) (hs : ∀ c ∈ s, ¬ isWhitespace c) (hne : s ≠ []) :
    trim (left ++ s ++ right) = s := by
  have hkeep : ∀ (t u : List Char), t ≠ [] → (∀ c ∈ t, ¬ isWhitespace c) →
      (t ++ u).dropWhile isWhitespace = t ++ u := by
    rintro t u hne ht
    obtain ⟨first, others, rfl⟩ := List.exists_cons_of_ne_nil hne
    exact List.dropWhile_cons_of_neg (ht first List.mem_cons_self)
  have hreverse : (s ++ right).reverse.dropWhile isWhitespace = s.reverse := by
    rw [List.reverse_append,
      List.dropWhile_append_of_pos fun c hc => hright c (List.mem_reverse.mp hc)]
    have := hkeep s.reverse [] (by simpa using hne) fun c hc => hs c (List.mem_reverse.mp hc)
    rwa [List.append_nil] at this
  rw [trim, List.append_assoc, List.dropWhile_append_of_pos hleft, hkeep s right hne hs, hreverse,
    List.reverse_reverse]

/-- What is trimmed is white space. -/
theorem exists_trim_append (s : List Char) : ∃ left right, s = left ++ trim s ++ right ∧
    (∀ c ∈ left, isWhitespace c) ∧ ∀ c ∈ right, isWhitespace c := by
  refine ⟨s.takeWhile isWhitespace,
    ((s.dropWhile isWhitespace).reverse.takeWhile isWhitespace).reverse, ?_,
    fun c hc => List.mem_takeWhile_imp hc,
    fun c hc => List.mem_takeWhile_imp (List.mem_reverse.mp hc)⟩
  rw [trim, List.append_assoc, ← List.reverse_append, List.takeWhile_append_dropWhile,
    List.reverse_reverse, List.takeWhile_append_dropWhile]

/-! ## Numbers -/

/-- The text is a decimal spelling of the number. -/
structure SpellsNat (digits : List Char) (n : ℕ) : Prop where
  ne_nil : digits ≠ []
  isDigit : ∀ c ∈ digits, c.isDigit
  value : Nat.ofDigitChars 10 digits 0 = n

theorem toNat_of_isDigit (h : c.isDigit) : 48 ≤ c.toNat ∧ c.toNat ≤ 57 := by
  simpa [Char.isDigit, UInt32.le_iff_toNat_le] using h

theorem parseDigits_eq_some : parseDigits s = some n ↔ SpellsNat s n := by
  cases s with
  | nil => exact iff_of_false (by simp [parseDigits]) fun h => h.ne_nil rfl
  | cons c rest =>
      have hvalue : (c :: rest).foldl (fun n c => 10 * n + (c.toNat - '0'.toNat)) 0 =
          Nat.ofDigitChars 10 (c :: rest) 0 := Nat.ofDigitChars_eq_foldl.symm
      rw [parseDigits.eq_def]
      dsimp only
      rw [hvalue]
      constructor
      · intro h
        split at h
        case isTrue hall =>
          exact ⟨List.cons_ne_nil _ _, List.all_eq_true.mp hall, Option.some.inj h⟩
        case isFalse => cases h
      · rintro ⟨-, hdigits, rfl⟩
        rw [if_pos (List.all_eq_true.mpr hdigits)]

theorem spellsNat_toDigits (n : ℕ) : SpellsNat (Nat.toDigits 10 n) n :=
  ⟨Nat.toDigits_ne_nil, fun _ hc => Nat.isDigit_of_mem_toDigits (by decide) (by decide) hc,
    Nat.ofDigitChars_ten_toDigits⟩

end SpectrumOffchain

import Calculator.Text.Cut
import Calculator.Text.Line
import Calculator.Text.WhiteSpace
import Mathlib.Data.List.DropRight

/-!
# How texts come apart

Laws of cutting, of trimming, of splitting into words and of splitting into lines,
for texts that were put together from known pieces.
-/

namespace Calculator.Text

/-! ## Characters -/

/-- No visible ASCII character is white space. -/
theorem isWhiteSpace_eq_false {c : Char} (low : 33 ≤ c.toNat) (high : c.toNat ≤ 126) :
    isWhiteSpace c = false := by
  simp [isWhiteSpace, whiteSpaceRanges]
  omega

theorem toNat_of_isDigit {c : Char} (h : c.isDigit) : 48 ≤ c.toNat ∧ c.toNat ≤ 57 := by
  simpa [Char.isDigit, UInt32.le_iff_toNat_le] using h

theorem toNat_of_isAlpha {c : Char} (h : c.isAlpha) :
    65 ≤ c.toNat ∧ c.toNat ≤ 90 ∨ 97 ≤ c.toNat ∧ c.toNat ≤ 122 := by
  have ranges : (decide (c.val ≥ 65 ∧ c.val ≤ 90) ||
      decide (c.val ≥ 97) && decide (c.val ≤ 122)) = true := h
  simpa [UInt32.le_iff_toNat_le] using ranges

theorem not_isDigit_of_isAlpha {c : Char} (h : c.isAlpha) : ¬ c.isDigit := by
  intro digit
  have := toNat_of_isAlpha h
  have := toNat_of_isDigit digit
  omega

theorem isWhiteSpace_of_isAlpha {c : Char} (h : c.isAlpha) : isWhiteSpace c = false := by
  have range := toNat_of_isAlpha h
  exact isWhiteSpace_eq_false (by omega) (by omega)

/-- A text of at least one character and without white space. -/
def Solid (cs : List Char) : Prop := cs ≠ [] ∧ ∀ c ∈ cs, isWhiteSpace c = false

theorem solid_singleton {c : Char} (h : isWhiteSpace c = false) : Solid [c] :=
  ⟨List.cons_ne_nil c [], by simpa using h⟩

theorem Solid.append {cs ds : List Char} (h : Solid cs) (g : ∀ d ∈ ds, isWhiteSpace d = false) :
    Solid (cs ++ ds) := by
  refine ⟨by simp [h.1], fun c hc => ?_⟩
  rcases List.mem_append.1 hc with hc | hc
  · exact h.2 c hc
  · exact g c hc

theorem Solid.last {cs : List Char} (h : Solid cs) (front : List Char) :
    ∀ c ∈ (front ++ cs).getLast?, isWhiteSpace c = false := by
  intro c hc
  rw [List.getLast?_append_of_ne_nil _ h.1] at hc
  exact h.2 c (List.mem_of_getLast? hc)

/-! ## Cutting -/

/-- All members of a list have a property, or there is a first one without it. -/
theorem forall_or_exists_first {α : Type} (p : α → Prop) (xs : List α) :
    (∀ x ∈ xs, p x) ∨
      ∃ before x after, xs = before ++ x :: after ∧ (∀ y ∈ before, p y) ∧ ¬ p x := by
  induction xs with
  | nil => exact .inl (by simp)
  | cons x xs ih =>
    by_cases hx : p x
    · rcases ih with all | ⟨before, y, after, rfl, first, hy⟩
      · exact .inl (List.forall_mem_cons.2 ⟨hx, all⟩)
      · exact .inr ⟨x :: before, y, after, rfl, List.forall_mem_cons.2 ⟨hx, first⟩, hy⟩
    · exact .inr ⟨[], x, xs, rfl, by simp, hx⟩

theorem dropLast?_eq_some {c : Char} {cs rest : List Char} :
    dropLast? c cs = some rest ↔ cs = rest ++ [c] := by
  rw [dropLast?]
  constructor
  · intro h
    split at h
    · next last =>
      obtain rfl := Option.some.inj h
      exact (List.dropLast_append_getLast? c last).symm
    · contradiction
  · rintro rfl
    simp

/-- What stands between a known start and a known last character. -/
theorem between_eq_some {lead cs inner : List Char} {c : Char} :
    (dropLead? lead cs).bind (dropLast? c) = some inner ↔ cs = lead ++ inner ++ [c] := by
  simp only [Option.bind_eq_some_iff, dropLead?_eq_some, dropLast?_eq_some, List.append_assoc]
  constructor
  · rintro ⟨_, rfl, rfl⟩
    rfl
  · rintro rfl
    exact ⟨_, rfl, rfl⟩

/-! ## Trimming -/

/-- Only the white space around a text is trimmed. -/
theorem trim_append {before cs after : List Char} (hb : ∀ c ∈ before, isWhiteSpace c)
    (ha : ∀ c ∈ after, isWhiteSpace c) (first : ∀ c ∈ cs.head?, isWhiteSpace c = false)
    (last : ∀ c ∈ cs.getLast?, isWhiteSpace c = false) : trim (before ++ cs ++ after) = cs := by
  rw [trim, List.append_assoc, List.dropWhile_append_of_pos hb]
  cases cs with
  | nil =>
    have blank : after.dropWhile isWhiteSpace = [] := by
      simpa using @List.dropWhile_append_of_pos _ isWhiteSpace after [] ha
    rw [List.nil_append, blank]
    rfl
  | cons c cs =>
    have start : isWhiteSpace c = false := first c rfl
    have ends : ((c :: cs).reverse.dropWhile isWhiteSpace) = (c :: cs).reverse := by
      obtain ⟨front, d, back⟩ := List.eq_nil_or_concat (c :: cs) |>.resolve_left (by simp)
      rw [back] at last ⊢
      have stop : isWhiteSpace d = false := last d (by simp)
      simp [stop]
    rw [List.cons_append, List.dropWhile_cons_of_neg (by simp [start]), ← List.cons_append, trimEnd,
      List.reverse_append, List.dropWhile_append_of_pos (by simpa using ha), ends,
      List.reverse_reverse]

theorem trim_eq_self {cs : List Char} (first : ∀ c ∈ cs.head?, isWhiteSpace c = false)
    (last : ∀ c ∈ cs.getLast?, isWhiteSpace c = false) : trim cs = cs := by
  simpa using @trim_append [] cs [] (by simp) (by simp) first last

theorem Solid.trim_append {before cs after : List Char} (h : Solid cs)
    (hb : ∀ c ∈ before, isWhiteSpace c) (ha : ∀ c ∈ after, isWhiteSpace c) :
    trim (before ++ cs ++ after) = cs :=
  Text.trim_append hb ha (fun c hc => h.2 c (List.mem_of_head? hc))
    (fun c hc => h.2 c (List.mem_of_getLast? hc))

theorem Solid.trim {cs : List Char} (h : Solid cs) : trim cs = cs := by
  simpa using @Solid.trim_append [] cs [] h (by simp) (by simp)

/-- A visible first character survives trimming. -/
theorem trim_cons {c : Char} (h : isWhiteSpace c = false) (cs : List Char) :
    ∃ ds, trim (c :: cs) = c :: ds := by
  rw [trim, List.dropWhile_cons_of_neg (by simp [h]), trimEnd, List.reverse_cons,
    List.dropWhile_append]
  split
  · exact ⟨[], by simp [h]⟩
  · exact ⟨_, List.reverse_concat ..⟩

/-- A text is what is left of it after trimming, with white space around. -/
theorem exists_trim (cs : List Char) :
    ∃ front back, cs = front ++ trim cs ++ back ∧ (∀ c ∈ front, isWhiteSpace c) ∧
      (∀ c ∈ back, isWhiteSpace c) ∧ (∀ c ∈ (trim cs).head?, isWhiteSpace c = false) ∧
      ∀ c ∈ (trim cs).getLast?, isWhiteSpace c = false := by
  have whole : trim cs ++ (cs.dropWhile isWhiteSpace).rtakeWhile isWhiteSpace =
      cs.dropWhile isWhiteSpace := List.rdropWhile_append_rtakeWhile ..
  refine ⟨cs.takeWhile isWhiteSpace, (cs.dropWhile isWhiteSpace).rtakeWhile isWhiteSpace,
    ?_, ?_, ?_, ?_, ?_⟩
  · rw [List.append_assoc, whole, List.takeWhile_append_dropWhile]
  · intro c hc
    exact List.mem_takeWhile_imp hc
  · intro c hc
    exact List.mem_rtakeWhile_imp hc
  · intro c hc
    have first := List.head?_dropWhile_not isWhiteSpace cs
    rw [← whole, List.head?_append, hc] at first
    exact first
  · intro c hc
    have nonempty : trim cs ≠ [] := by rintro empty; simp [empty] at hc
    have last : ¬ isWhiteSpace ((trim cs).getLast nonempty) := List.rdropWhile_last_not _ _ nonempty
    rw [List.getLast?_eq_some_getLast nonempty, Option.mem_some_iff] at hc
    simpa [hc] using last

/-- White space around a text makes no difference to what is left of it. -/
theorem trim_padded {front back : List Char} (hf : ∀ c ∈ front, isWhiteSpace c)
    (hb : ∀ c ∈ back, isWhiteSpace c) (cs : List Char) : trim (front ++ cs ++ back) = trim cs := by
  obtain ⟨before, after, split, blank, blank', first, last⟩ := exists_trim cs
  have whole : front ++ cs ++ back = (front ++ before) ++ trim cs ++ (after ++ back) := by
    conv_lhs => rw [split]
    simp
  rw [whole]
  exact trim_append (List.forall_mem_append.2 ⟨hf, blank⟩) (List.forall_mem_append.2 ⟨blank', hb⟩)
    first last

/-! ## Words -/

theorem wordsFrom_append {cs : List Char} (h : ∀ c ∈ cs, isWhiteSpace c = false)
    (seen rest : List Char) :
    wordsFrom seen (cs ++ rest) = wordsFrom (cs.reverse ++ seen) rest := by
  induction cs generalizing seen with
  | nil => rfl
  | cons c cs ih =>
    have solid : isWhiteSpace c = false := h c (by simp)
    rw [List.cons_append, wordsFrom, if_neg (by simp [solid]), ih (fun d hd => h d (by simp [hd]))]
    simp

theorem words_blank {c : Char} (h : isWhiteSpace c) (cs : List Char) :
    words (c :: cs) = words cs := by
  rw [words, wordsFrom, if_pos h]
  rfl

theorem Solid.words {cs : List Char} (h : Solid cs) : words cs = [cs] := by
  have all := wordsFrom_append h.2 [] []
  rw [List.append_nil, List.append_nil] at all
  rw [Text.words, all, wordsFrom, if_neg (by simpa using h.1), List.reverse_reverse]

theorem Solid.words_append {cs : List Char} (h : Solid cs) {c : Char} (hc : isWhiteSpace c)
    (rest : List Char) : Text.words (cs ++ c :: rest) = cs :: Text.words rest := by
  rw [Text.words, wordsFrom_append h.2, List.append_nil, wordsFrom, if_pos hc,
    if_neg (by simpa using h.1), List.reverse_reverse]
  rfl

/-! ## Lines -/

theorem linesFrom_append {cs : List Char} (h : '\n' ∉ cs) (seen rest : List Char) :
    linesFrom seen (cs ++ rest) = linesFrom (cs.reverse ++ seen) rest := by
  induction cs generalizing seen with
  | nil => rfl
  | cons c cs ih =>
    rw [List.mem_cons, not_or] at h
    rw [List.cons_append, linesFrom, if_neg (Ne.symm h.1), ih h.2]
    simp

theorem dropReturn_of_head? {cs : List Char} (h : cs.head? ≠ some '\r') : dropReturn cs = cs := by
  unfold dropReturn
  split
  · simp at h
  · rfl

theorem lines_append_feed {cs : List Char} (h : '\n' ∉ cs) (rest : List Char) :
    lines (cs ++ '\n' :: rest) = (dropReturn cs.reverse).reverse :: lines rest := by
  rw [lines, linesFrom_append h, List.append_nil, linesFrom, if_pos rfl]
  rfl

/-- A line is read back if neither of its characters ends a line. -/
theorem lines_append {cs : List Char} (feed : '\n' ∉ cs) (ret : '\r' ∉ cs) (rest : List Char) :
    lines (cs ++ '\n' :: rest) = cs :: lines rest := by
  have last : cs.reverse.head? ≠ some '\r' := fun h => ret (by simpa using List.mem_of_head? h)
  rw [lines_append_feed feed, dropReturn_of_head? last, List.reverse_reverse]

/-- A carriage return before a line feed makes no difference to the trimmed lines. -/
theorem map_trim_linesFrom_return (cs ds seen : List Char) :
    (linesFrom seen (cs ++ '\r' :: '\n' :: ds)).map trim =
      (linesFrom seen (cs ++ '\n' :: ds)).map trim := by
  induction cs generalizing seen with
  | nil =>
    have same : trim (dropReturn seen).reverse = trim seen.reverse := by
      unfold dropReturn
      split
      · next rest =>
        simpa using (@trim_padded [] ['\r'] (by simp) (by simp; decide) rest.reverse).symm
      · rfl
    have drop : dropReturn ('\r' :: seen) = seen := rfl
    simp [linesFrom, drop, same]
  | cons c cs ih =>
    simp only [List.cons_append, linesFrom]
    split
    · rw [List.map_cons, List.map_cons, ih]
    · exact ih _

end Calculator.Text

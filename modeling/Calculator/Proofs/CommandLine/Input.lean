import Calculator.CommandLine.Run

/-!
# The lines of an input

A run splits the bytes of its input and decodes each line on its own. For the
bytes of a text this is the same as splitting the text: no character but the line
feed has the byte of a line feed. So what follows is about runs with some options
over the lines of a text, and only the main results speak of arguments and bytes.
-/

namespace Calculator.CommandLine

/-- The bytes of a text. -/
def utf8 (text : String) : List UInt8 := text.toUTF8.data.toList

/-- The lines of some characters with their line feeds. Only the last of them can
be without one. -/
def feedLines : List Char → List (List Char)
  | [] => []
  | c :: cs =>
    if c = '\n' then [c] :: feedLines cs
    else
      match feedLines cs with
      | [] => [[c]]
      | line :: rest => (c :: line) :: rest

/-- The lines of a text, as a run reads them. -/
def linesOf (text : String) : List String := (feedLines text.toList).map String.ofList

/-- Nothing follows the last line feed of the text. -/
def Complete (cs : List Char) : Prop := cs = [] ∨ cs.getLast? = some '\n'

theorem Complete.tail {c : Char} {cs : List Char} (h : Complete (c :: cs)) : Complete cs := by
  cases cs with
  | nil => exact .inl rfl
  | cons d ds => exact h.imp_left nofun

theorem feedLines_eq_nil {cs : List Char} : feedLines cs = [] ↔ cs = [] := by
  cases cs with
  | nil => simp [feedLines]
  | cons c cs =>
    simp only [feedLines, reduceCtorEq, iff_false]
    split
    · simp
    · split <;> simp

/-- Lines that have ended are not changed by what follows them. -/
theorem feedLines_append {xs : List Char} (h : Complete xs) (ys : List Char) :
    feedLines (xs ++ ys) = feedLines xs ++ feedLines ys := by
  induction xs with
  | nil => rfl
  | cons c cs ih =>
    rw [List.cons_append, feedLines, feedLines, ih h.tail]
    by_cases feed : c = '\n'
    · simp [feed]
    · -- a line that has begun ends among the other characters
      have more : cs ≠ [] := by
        rintro rfl
        exact feed (by simpa [Complete] using h)
      obtain ⟨line, rest, lines⟩ :=
        List.exists_cons_of_ne_nil (mt feedLines_eq_nil.1 more)
      simp [feed, lines]

theorem linesOf_append {first : String} (h : Complete first.toList) (second : String) :
    linesOf (first ++ second) = linesOf first ++ linesOf second := by
  simp [linesOf, feedLines_append h]

/-! ## Bytes -/

theorem utf8_eq (text : String) : utf8 text = text.toList.flatMap String.utf8EncodeChar := by
  rw [utf8, String.toUTF8_eq_toByteArray, ← String.utf8Encode_toList, List.utf8Encode]
  simp

theorem fromUTF8?_flatMap (cs : List Char) :
    String.fromUTF8? ⟨(cs.flatMap String.utf8EncodeChar).toArray⟩ = some (String.ofList cs) := by
  have bytes : (⟨(cs.flatMap String.utf8EncodeChar).toArray⟩ : ByteArray) =
      (String.ofList cs).toByteArray := by
    rw [String.toByteArray_ofList, List.utf8Encode]
    apply ByteArray.ext
    simp
  rw [bytes, String.fromUTF8?, dif_pos (String.ofList cs).isValidUTF8]
  rfl

/-- Only the line feed has the byte of a line feed. -/
theorem ne_of_mem_utf8EncodeChar {c : Char} (h : c ≠ '\n') :
    ∀ b ∈ String.utf8EncodeChar c, b ≠ 10 := by
  have code : c.val.toNat ≠ 10 := fun same => h (Char.ext (UInt32.toNat_inj.1 same))
  have byte {n : Nat} (other : n % 256 ≠ 10) : UInt8.ofNat n ≠ 10 := by
    intro same
    exact other (by simpa using congrArg UInt8.toNat same)
  intro b hb
  simp only [String.utf8EncodeChar] at hb
  -- a character of one byte is its own code, and all bytes of the others are at least 128
  split at hb
  · grind
  · split at hb
    · grind
    · split at hb <;> grind

theorem byteLinesFrom_append {bs : List UInt8} (h : ∀ b ∈ bs, b ≠ 10) (seen rest : List UInt8) :
    byteLinesFrom seen (bs ++ rest) = byteLinesFrom (bs.reverse ++ seen) rest := by
  induction bs generalizing seen with
  | nil => rfl
  | cons b bs ih =>
    have other : b ≠ 10 := h b (by simp)
    rw [List.cons_append, byteLinesFrom, if_neg other, ih fun d hd => h d (by simp [hd])]
    simp

/-- Splitting bytes follows the splitting of the text they encode, where the bytes
`seen` belong to the first line. -/
theorem byteLinesFrom_flatMap (cs : List Char) (seen : List UInt8) :
    byteLinesFrom seen (cs.flatMap String.utf8EncodeChar) =
      match feedLines cs with
      | [] => if seen.isEmpty then [] else [seen.reverse]
      | line :: rest => (seen.reverse ++ line.flatMap String.utf8EncodeChar) ::
          rest.map (List.flatMap String.utf8EncodeChar) := by
  induction cs generalizing seen with
  | nil => rfl
  | cons c cs ih =>
    rw [List.flatMap_cons, feedLines]
    by_cases feed : c = '\n'
    · subst feed
      have encoded : String.utf8EncodeChar '\n' = [10] := by decide
      have fresh := ih []
      rw [encoded, List.singleton_append, byteLinesFrom, if_pos rfl, fresh, if_pos rfl]
      cases feedLines cs <;> simp [encoded]
    · rw [byteLinesFrom_append (ne_of_mem_utf8EncodeChar feed), ih, if_neg feed]
      cases feedLines cs <;> simp

/-- Every line of a text can be decoded, and it is a line of the text. -/
theorem inputLines_utf8 (text : String) : inputLines (utf8 text) = (linesOf text).map some := by
  have split := byteLinesFrom_flatMap text.toList []
  rw [inputLines, utf8_eq, linesOf, split]
  cases feedLines text.toList with
  | nil => rfl
  | cons line rest => simp [fromUTF8?_flatMap]

/-! ## Runs over a text -/

/-- The run with some options and the input `text`. -/
def Options.runText (o : Options) (write : String → Except String Unit) (text : String) : Outcome :=
  o.runShown write ((linesOf text).map some)

/-- Arguments have no other influence than by the options that are read from them. -/
theorem run_utf8 {arguments : List String} {o : Options}
    (accepted : Options.read arguments = .ok o) (write : String → Except String Unit)
    (text : String) : run arguments write (utf8 text) = o.runText write text := by
  rw [run, accepted, Options.runText, inputLines_utf8]

end Calculator.CommandLine

/-!
Cutting a text at a character, and measuring it in bytes.  Every cut keeps all of the text: joining
the pieces with the character they were cut at gives it back.
-/

namespace ServiceModel.Text

/-- The number of bytes of the UTF-8 form of some characters. -/
def byteLength : List Char → Nat
  | [] => 0
  | c :: cs => c.utf8Size + byteLength cs

/-- The pieces between the occurrences of `sep`; one more than there are occurrences. -/
def pieces (sep : Char) : List Char → List (List Char)
  | [] => [[]]
  | c :: cs =>
      if c = sep then [] :: pieces sep cs
      else
        match pieces sep cs with
        | [] => [[c]]
        | p :: ps => (c :: p) :: ps

/-- The characters before and after the first `sep`. -/
def cutFirst (sep : Char) : List Char → Option (List Char × List Char)
  | [] => none
  | c :: cs => if c = sep then some ([], cs) else (cutFirst sep cs).map fun (a, b) => (c :: a, b)

/-- The characters before and after the last `sep`. -/
def cutLast (sep : Char) : List Char → Option (List Char × List Char)
  | [] => none
  | c :: cs =>
      match cutLast sep cs with
      | some (a, b) => some (c :: a, b)
      | none => if c = sep then some ([], cs) else none

/-- The characters after `lead`, if the text begins with it. -/
def after? : (lead cs : List Char) → Option (List Char)
  | [], cs => some cs
  | _ :: _, [] => none
  | a :: as, c :: cs => if a = c then after? as cs else none

/-- The characters before and after the first place where `sep` stands. -/
def cutFirstText (sep : List Char) : List Char → Option (List Char × List Char)
  | [] => if sep = [] then some ([], []) else none
  | c :: cs =>
      match after? sep (c :: cs) with
      | some rest => some ([], rest)
      | none => (cutFirstText sep cs).map fun (a, b) => (c :: a, b)

/-- The pieces of a text between the occurrences of `sep`. -/
def split (sep : Char) (s : String) : List String := (pieces sep s.toList).map String.ofList

/-- A text cut at its last `sep`. -/
def splitLast? (sep : Char) (s : String) : Option (String × String) :=
  (cutLast sep s.toList).map fun (a, b) => (String.ofList a, String.ofList b)

/-- The text after the last `sep`, or all of it when there is none. -/
def lastPiece (sep : Char) (s : String) : String :=
  match splitLast? sep s with
  | some (_, last) => last
  | none => s

/-- The text after `lead`, if it begins with it. -/
def dropLead? (lead s : String) : Option String :=
  (after? lead.toList s.toList).map String.ofList

def hasLead (lead s : String) : Bool := (after? lead.toList s.toList).isSome

/-- The text before `tail`, if it ends with it. -/
def dropTail? (tail s : String) : Option String :=
  (after? tail.toList.reverse s.toList.reverse).map fun cs => String.ofList cs.reverse

/-- Some texts with `sep` between them. -/
def join (sep : String) : List String → String
  | [] => ""
  | [s] => s
  | s :: t :: ts => s ++ sep ++ join sep (t :: ts)

theorem byteLength_append (as bs : List Char) :
    byteLength (as ++ bs) = byteLength as + byteLength bs := by
  induction as with
  | nil => simp [byteLength]
  | cons a as ih => simp [byteLength, ih, Nat.add_assoc]

theorem after?_eq_some {lead cs rest : List Char} (h : after? lead cs = some rest) :
    cs = lead ++ rest := by
  induction lead generalizing cs with
  | nil => simpa [after?] using h
  | cons a as ih =>
      cases cs with
      | nil => simp [after?] at h
      | cons c cs =>
          by_cases hac : a = c
          · simp [after?, hac] at h
            simp [hac, ih h]
          · simp [after?, hac] at h

theorem cutFirst_eq_some {sep : Char} {cs before rest : List Char}
    (h : cutFirst sep cs = some (before, rest)) : cs = before ++ sep :: rest := by
  induction cs generalizing before with
  | nil => simp [cutFirst] at h
  | cons c cs ih =>
      by_cases hc : c = sep
      · simp [cutFirst, hc] at h
        simp [hc, h.1, h.2]
      · simp [cutFirst, hc] at h
        obtain ⟨a, ha, rfl⟩ := h
        simp [ih ha]

theorem cutFirst_append {sep : Char} {before : List Char} (h : sep ∉ before) (rest : List Char) :
    cutFirst sep (before ++ sep :: rest) = some (before, rest) := by
  induction before with
  | nil => simp [cutFirst]
  | cons c cs ih =>
      rw [List.mem_cons, not_or] at h
      rw [List.cons_append, cutFirst, if_neg (Ne.symm h.1), ih h.2]
      rfl

theorem cutFirst_eq_none {sep : Char} {cs : List Char} (h : sep ∉ cs) : cutFirst sep cs = none := by
  induction cs with
  | nil => rfl
  | cons c cs ih =>
      rw [List.mem_cons, not_or] at h
      rw [cutFirst, if_neg (Ne.symm h.1), ih h.2]
      rfl

end ServiceModel.Text

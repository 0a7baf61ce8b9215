/-!
Blank characters, in the sense of the Unicode property `White_Space`, and the trimming of texts by
them.  A text is worked on as the list of its characters.
-/

namespace ServiceModel.Text

/-- The characters with the Unicode property `White_Space`. -/
def isBlank (c : Char) : Bool :=
  let n := c.toNat
  (9 ≤ n && n ≤ 13) || n == 0x20 || n == 0x85 || n == 0xA0 || n == 0x1680 ||
    (0x2000 ≤ n && n ≤ 0x200A) || n == 0x2028 || n == 0x2029 || n == 0x202F || n == 0x205F ||
    n == 0x3000

/-- The characters left when blanks are dropped in front. -/
def trimStart (cs : List Char) : List Char := cs.dropWhile isBlank

/-- The characters left when those satisfying `p` are dropped at the end. -/
def dropEndWhile (p : Char → Bool) (cs : List Char) : List Char :=
  (cs.reverse.dropWhile p).reverse

/-- The characters left when blanks are dropped at the end. -/
def trimEnd (cs : List Char) : List Char := dropEndWhile isBlank cs

/-- A text without the blanks around it. -/
def trim (s : String) : String := String.ofList (trimEnd (trimStart s.toList))

theorem dropWhile_of_not_blank {cs : List Char} (h : ∀ c ∈ cs, isBlank c = false) :
    cs.dropWhile isBlank = cs := by
  cases cs with
  | nil => rfl
  | cons c cs => rw [List.dropWhile_cons_of_neg (by simp [h c List.mem_cons_self])]

theorem trim_of_not_blank {s : String} (h : ∀ c ∈ s.toList, isBlank c = false) : trim s = s := by
  rw [trim, trimEnd, dropEndWhile, trimStart, dropWhile_of_not_blank h, dropWhile_of_not_blank,
    List.reverse_reverse, String.ofList_toList]
  intro c hc
  exact h c (List.mem_reverse.1 hc)

end ServiceModel.Text

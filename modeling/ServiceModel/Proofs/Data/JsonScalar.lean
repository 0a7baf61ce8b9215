import ServiceModel.Data.JsonText
import ServiceModel.Proofs.Text.Scan

/-!
Quoted texts and integers in JSON text.  What is written for them is read back, whatever follows; an
integer has to fit a word and must not be followed by what could belong to a number.
-/

namespace ServiceModel.JsonText

open Text (Stops stops_cons takeWhile_append_of_stops dropWhile_append_of_stops)

/-! ### Quoted texts -/

/-- The piece that the escape of a character is read as. -/
def piece (c : Char) : Piece :=
  if c = '\n' ∨ c = '\r' ∨ c = '\t' ∨ c.toNat = 8 ∨ c.toNat = 12 ∨ 32 ≤ c.toNat then .char c
  else .unit c.toNat

theorem unit?_hexDigits :
    ∀ n < 32, unit? '0' '0' (Json.hexDigit (n / 16)) (Json.hexDigit n) = some n := by
  decide

theorem scanPieces_escape (done : List Piece) (c : Char) (cs : List Char) :
    scanPieces done (Json.escape c ++ cs) = scanPieces (piece c :: done) cs := by
  unfold Json.escape
  split
  next h => simp [h, piece, scanPieces, escaped?]
  split
  next h => simp [h, piece, scanPieces, escaped?]
  split
  next h => simp [h, piece, scanPieces, escaped?]
  split
  next h => simp [h, piece, scanPieces, escaped?]
  split
  next h => simp [h, piece, scanPieces, escaped?]
  split
  next h =>
    have hc : c = Char.ofNat 8 := by rw [← h, Char.ofNat_toNat]
    simp [hc, piece, scanPieces, escaped?]
  split
  next h =>
    have hc : c = Char.ofNat 12 := by rw [← h, Char.ofNat_toNat]
    simp [hc, piece, scanPieces, escaped?]
  split
  next hn hr ht hb hf h =>
    have hpiece : piece c = .unit c.toNat := if_neg (by simp [hn, hr, ht, hb, hf, h])
    simp [hpiece, scanPieces, unit?_hexDigits c.toNat h]
  next hquote hslash hn hr ht hb hf h =>
    have hpiece : piece c = .char c := if_pos (by omega)
    simp [hpiece, scanPieces, hslash, h]

theorem scanPieces_escapes (done : List Piece) (cs rest : List Char) :
    scanPieces done (cs.flatMap Json.escape ++ '"' :: rest) =
      some (done.reverse ++ cs.map piece, rest) := by
  induction cs generalizing done with
  | nil => simp [scanPieces]
  | cons c cs ih =>
      rw [List.flatMap_cons, List.append_assoc, scanPieces_escape, ih]
      simp

theorem joinPieces_unit {u : Nat} (hu : u < 0xD800) (ps : List Piece) :
    joinPieces (.unit u :: ps) = (joinPieces ps).map (Char.ofNat u :: ·) := by
  have hhigh : isHighHalf u = false := by simp [isHighHalf]; omega
  have hlow : isLowHalf u = false := by simp [isLowHalf]; omega
  match ps with
  | [] => simp [joinPieces, hhigh, hlow]
  | .char c :: ps => simp [joinPieces, hhigh, hlow]
  | .unit l :: ps => simp [joinPieces, hhigh, hlow]

theorem joinPieces_pieces (cs : List Char) : joinPieces (cs.map piece) = some cs := by
  induction cs with
  | nil => rfl
  | cons c cs ih =>
      rw [List.map_cons, piece]
      split
      next h => rw [joinPieces, ih, Option.map_some]
      next h => rw [joinPieces_unit (by omega), ih, Option.map_some, Char.ofNat_toNat]

theorem toList_quote (s : String) :
    (Json.quote s).toList = '"' :: (s.toList.flatMap Json.escape ++ ['"']) := by
  simp [Json.quote]

/-- A quoted text is read back as the text. -/
theorem quoted?_quote (s : String) (rest : List Char) :
    quoted? (s.toList.flatMap Json.escape ++ '"' :: rest) = some (.string s, rest) := by
  simp [quoted?, scanPieces_escapes, joinPieces_pieces]

/-! ### Integers -/

/-- Whether a number could go on with a character. -/
def isNumberTail (c : Char) : Bool := c.isDigit || c == '.' || c == 'e' || c == 'E'

theorem digitValue_of_isDigit {c : Char} (h : c.isDigit = true) :
    Scalar.digitValue c = c.toNat - '0'.toNat := by
  have hc : '0' ≤ c ∧ c ≤ '9' := by simpa [Char.isDigit, Char.le_def] using h
  rw [Scalar.digitValue, if_pos hc]

/-- The values of the digits of a number. -/
def digitValues (n : Nat) : List Nat := (Nat.toDigits 10 n).map Scalar.digitValue

theorem isDigit_of_mem_toDigits {n : Nat} {c : Char} (h : c ∈ Nat.toDigits 10 n) :
    c.isDigit = true :=
  Nat.isDigit_of_mem_toDigits (by decide) (by decide) h

theorem ofDigits_digitValues (n : Nat) : Number.ofDigits (digitValues n) = n := by
  have hvalues : digitValues n = (Nat.toDigits 10 n).map fun c => c.toNat - '0'.toNat :=
    List.map_congr_left fun c hc => digitValue_of_isDigit (isDigit_of_mem_toDigits hc)
  rw [hvalues, Number.ofDigits, List.foldl_map, ← Nat.ofDigitChars_eq_foldl,
    Nat.ofDigitChars_toDigits (by decide) (by decide)]

/-- Only zero is written with a zero in front. -/
theorem head?_digitValues {n : Nat} (hn : n ≠ 0) : (digitValues n).head? ≠ some 0 := by
  induction n using Nat.strongRecOn with
  | ind n ih =>
      rw [digitValues, Nat.toDigits_eq_if (by decide)]
      split
      next hlt =>
        have hdigit : ∀ m < 10, m ≠ 0 → Scalar.digitValue m.digitChar ≠ 0 := by decide
        simpa using hdigit n hlt hn
      next hge =>
        have hfront := ih (n / 10) (by omega) (by omega)
        obtain ⟨c, cs, hcs⟩ :=
          List.exists_cons_of_ne_nil (Nat.toDigits_ne_nil (n := n / 10) (b := 10))
        rw [digitValues, hcs] at hfront
        rw [hcs]
        exact hfront

theorem whole?_toDigits (n : Nat) {rest : List Char} (hrest : Stops isNumberTail rest) :
    whole? (Nat.toDigits 10 n ++ rest) = some (digitValues n, rest) := by
  have hstop : Stops Char.isDigit rest := fun c hc => by
    have htail := hrest c hc
    simp only [isNumberTail, Bool.or_eq_false_iff] at htail
    exact htail.1.1.1
  have hleading : Scalar.leadingDigits (Nat.toDigits 10 n ++ rest) = (digitValues n, rest) := by
    rw [Scalar.leadingDigits,
      takeWhile_append_of_stops (fun c => isDigit_of_mem_toDigits) hstop,
      dropWhile_append_of_stops (fun c => isDigit_of_mem_toDigits) hstop]
    rfl
  have hne : digitValues n ≠ [] := by simp [digitValues, Nat.toDigits_ne_nil]
  have hdigits : digits? (Nat.toDigits 10 n ++ rest) = some (digitValues n, rest) := by
    rw [digits?, hleading]
    cases hd : digitValues n with
    | nil => exact absurd hd hne
    | cons d ds => rfl
  rw [whole?, hdigits]
  by_cases hn : n = 0
  · subst hn
    rfl
  · have hhead := head?_digitValues hn
    cases hd : digitValues n with
    | nil => exact absurd hd hne
    | cons d ds =>
        have hd0 : d ≠ 0 := fun h => hhead (by rw [hd, h, List.head?_cons])
        split <;> simp_all

theorem fraction?_of_stops {rest : List Char} (hrest : Stops isNumberTail rest) :
    fraction? rest = some (none, rest) := by
  cases rest with
  | nil => rfl
  | cons c cs =>
      have hc : c ≠ '.' := by
        rintro rfl
        cases stops_cons.1 hrest
      unfold fraction?
      split
      next heq => exact absurd (List.cons.inj heq).1 hc
      next => rfl

theorem exponent?_of_stops {rest : List Char} (hrest : Stops isNumberTail rest) :
    exponent? rest = some (none, rest) := by
  cases rest with
  | nil => rfl
  | cons c cs =>
      have hc : ¬(c = 'e' ∨ c = 'E') := by
        rintro (rfl | rfl) <;> cases stops_cons.1 hrest
      simp only [exponent?, if_neg hc]

theorem le_foldl_digits (ds : List Nat) (s : Nat) : s ≤ ds.foldl (fun n d => 10 * n + d) s := by
  induction ds generalizing s with
  | nil => exact Nat.le_refl s
  | cons d ds ih =>
      have hstep := ih (10 * s + d)
      rw [List.foldl_cons]
      omega

theorem gather_of_le {ds : List Nat} {s : Nat}
    (h : ds.foldl (fun n d => 10 * n + d) s ≤ Number.maxWord) :
    Number.gather s ds = (ds.foldl (fun n d => 10 * n + d) s, ds.length, 0) := by
  induction ds generalizing s with
  | nil => rfl
  | cons d ds ih =>
      rw [List.foldl_cons] at h
      have hle := Nat.le_trans (le_foldl_digits ds (10 * s + d)) h
      rw [Number.gather, if_pos hle, ih h, List.foldl_cons, List.length_cons]

theorem gather_digitValues {n : Nat} (hn : n ≤ Number.maxWord) :
    Number.gather 0 (digitValues n) = (n, (digitValues n).length, 0) := by
  have hvalue := ofDigits_digitValues n
  rw [Number.ofDigits] at hvalue
  rw [gather_of_le (by rw [hvalue]; exact hn), hvalue]

theorem unsigned?_toDigits {negative : Bool} {n : Nat} {m : Number} {rest : List Char}
    (hm : Number.ofNumeral ⟨negative, digitValues n, none, none⟩ = some m)
    (hrest : Stops isNumberTail rest) :
    unsigned? negative (Nat.toDigits 10 n ++ rest) = some (.number m, rest) := by
  simp [unsigned?, whole?_toDigits n hrest, fraction?_of_stops hrest, exponent?_of_stops hrest, hm]

theorem ne_minus_of_isDigit {c : Char} (h : c.isDigit = true) : c ≠ '-' := by
  rintro rfl
  cases h

/-- An integer of a word is read back. -/
theorem number?_toString {i : Int} (hmin : -Int.pow 2 63 ≤ i) (hmax : i < Int.pow 2 64)
    {rest : List Char} (hrest : Stops isNumberTail rest) :
    number? ((toString i).toList ++ rest) = some (.number (.int i), rest) := by
  cases i with
  | ofNat n =>
      have hn : n ≤ Number.maxWord := by
        rw [show Number.maxWord = 18446744073709551615 by decide]
        rw [show Int.pow 2 64 = 18446744073709551616 by decide, Int.ofNat_eq_natCast] at hmax
        omega
      have hm : Number.ofNumeral ⟨false, digitValues n, none, none⟩ = some (.int n) := by
        simp [Number.ofNumeral, gather_digitValues hn]
      have htext : (toString (Int.ofNat n)).toList = Nat.toDigits 10 n := by
        simp [toString, Int.repr]
      rw [htext]
      obtain ⟨c, cs, hcs⟩ := List.exists_cons_of_ne_nil (Nat.toDigits_ne_nil (n := n) (b := 10))
      have hc := ne_minus_of_isDigit (isDigit_of_mem_toDigits (n := n) (hcs ▸ List.mem_cons_self))
      rw [number?]
      · exact unsigned?_toDigits hm hrest
      · intro ds hds
        rw [hcs] at hds
        exact hc (List.cons.inj hds).1
  | negSucc n =>
      have hn : n + 1 ≤ Nat.pow 2 63 := by
        rw [show Nat.pow 2 63 = 9223372036854775808 by decide]
        rw [show Int.pow 2 63 = 9223372036854775808 by decide] at hmin
        omega
      have hm : Number.ofNumeral ⟨true, digitValues (n + 1), none, none⟩ =
          some (.int (Int.negSucc n)) := by
        have hle : n + 1 ≤ Number.maxWord := Nat.le_trans hn (by decide)
        simp [Number.ofNumeral, gather_digitValues hle, hn, Int.negSucc_eq]
      have htext : (toString (Int.negSucc n)).toList = '-' :: Nat.toDigits 10 (n + 1) := by
        simp [toString, Int.repr]
      rw [htext, List.cons_append]
      exact unsigned?_toDigits hm hrest

end ServiceModel.JsonText

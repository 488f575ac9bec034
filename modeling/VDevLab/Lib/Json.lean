import VDevLab.Lib.Check
import VDevLab.Lib.PyValue

/-!
# `json.loads`

The scanner behind `json.loads` on a `str`: strict strings, decimal numbers,
the three non-standard literals `NaN`, `Infinity` and `-Infinity`, objects
whose last duplicate key wins. A scanner takes the text from its position on
and returns a value and the text that is left.

Fuel bounds the nesting and the number of elements at once. Every step of
the recursion is behind at least one character, so the length of the text is
always enough.
-/

namespace Json

open PyStr

/-- `JSONDecodeError`, or the plain `ValueError` of an over-long integer. -/
inductive Error
  | decode
  | value
  deriving DecidableEq

abbrev Scan (α : Type) := Except Error (α × PyStr)

/-- The blanks between tokens. -/
def isWs (c : CodePoint) : Bool := c == ch ' ' || c == ch '\t' || c == ch '\n' || c == ch '\r'

def skipWs (s : PyStr) : PyStr := s.dropWhile isWs

/-! ## Strings -/

def hexDigit (c : CodePoint) : Option Nat :=
  if 0x30 ≤ c.val ∧ c.val ≤ 0x39 then some (c.val - 0x30)
  else if 0x61 ≤ c.val ∧ c.val ≤ 0x66 then some (c.val - 0x61 + 10)
  else if 0x41 ≤ c.val ∧ c.val ≤ 0x46 then some (c.val - 0x41 + 10)
  else none

/-- Four hexadecimal digits. -/
def hex4 : PyStr → Option (Nat × PyStr)
  | a :: b :: c :: d :: rest => do
      let a ← hexDigit a
      let b ← hexDigit b
      let c ← hexDigit c
      let d ← hexDigit d
      return (((a * 16 + b) * 16 + c) * 16 + d, rest)
  | _ => none

/-- The characters behind a one-letter escape. -/
def simpleEscape (e : CodePoint) : Option CodePoint :=
  if e = ch '"' then some (ch '"')
  else if e = ch '\\' then some (ch '\\')
  else if e = ch '/' then some (ch '/')
  else if e = ch 'b' then some 0x08
  else if e = ch 'f' then some 0x0c
  else if e = ch 'n' then some 0x0a
  else if e = ch 'r' then some 0x0d
  else if e = ch 't' then some 0x09
  else none

/-- A second `\u` escape with a low surrogate. -/
def lowEscape : PyStr → Option (Nat × PyStr)
  | a :: b :: rest =>
      if a = ch '\\' ∧ b = ch 'u' then
        (hex4 rest).filter fun p => 0xDC00 ≤ p.1 ∧ p.1 ≤ 0xDFFF
      else none
  | _ => none

/-- The character of an escape, from behind its backslash. A high surrogate
joins with a low one that follows as an escape; alone it stays. -/
def escape : PyStr → Option (CodePoint × PyStr)
  | [] => none
  | e :: rest =>
      if e = ch 'u' then
        match hex4 rest with
        | none => none
        | some (u, rest) =>
            if 0xD800 ≤ u ∧ u ≤ 0xDBFF then
              match lowEscape rest with
              | some (l, rest) =>
                  some (Fin.ofNat _ (0x10000 + (u - 0xD800) * 1024 + (l - 0xDC00)), rest)
              | none => some (Fin.ofNat _ u, rest)
            else some (Fin.ofNat _ u, rest)
      else (simpleEscape e).map fun c => (c, rest)

/-- `scanstring`, from behind the opening quote. -/
def scanString : Nat → PyStr → Scan PyStr
  | 0, _ => .error .decode
  | _ + 1, [] => .error .decode
  | fuel + 1, c :: rest =>
      if c = ch '"' then .ok ([], rest)
      else if c = ch '\\' then
        match escape rest with
        | none => .error .decode
        | some (d, rest) => (scanString fuel rest).map fun p => (d :: p.1, p.2)
      else if c.val ≤ 0x1f then .error .decode
      else (scanString fuel rest).map fun p => (c :: p.1, p.2)

/-! ## Numbers -/

/-- The digits before the point: one zero, or a run that does not start with
one. -/
def scanInteger : PyStr → Option (PyStr × PyStr)
  | [] => none
  | c :: rest =>
      if c = digit 0 then some ([c], rest)
      else if isDigit c then some ((c :: rest).takeWhile isDigit, (c :: rest).dropWhile isDigit)
      else none

/-- A point and at least one digit. -/
def scanFraction : PyStr → Option (PyStr × PyStr)
  | c :: rest =>
      if c = ch '.' ∧ rest.takeWhile isDigit ≠ [] then
        some (rest.takeWhile isDigit, rest.dropWhile isDigit)
      else none
  | [] => none

/-- `e`, an optional sign and at least one digit. -/
def scanExponent : PyStr → Option (Int × PyStr)
  | e :: rest =>
      let (neg, digits) :=
        match rest with
        | c :: rest' => if c = ch '-' then (true, rest') else if c = ch '+' then (false, rest')
            else (false, rest)
        | [] => (false, [])
      if (e = ch 'e' ∨ e = ch 'E') ∧ digits.takeWhile isDigit ≠ [] then
        let n : Int := natOfDigits (digits.takeWhile isDigit)
        some (if neg then -n else n, digits.dropWhile isDigit)
      else none
  | [] => none

/-- A number behind its sign: an integer when it has neither fraction nor
exponent. -/
def scanUnsigned (lim : IntLimit) (neg : Bool) (s : PyStr) : Scan PyValue :=
  match scanInteger s with
  | none => .error .decode
  | some (digits, rest) =>
      match scanFraction rest, scanExponent rest with
      | none, none =>
          match toInt lim digits with
          | none => .error .value
          | some n => .ok (.int (if neg then -(n : Int) else n), rest)
      | none, some (e, rest) => .ok (.float (.ofDecimal neg (natOfDigits digits) e), rest)
      | some (frac, rest), _ =>
          let all := natOfDigits (digits ++ frac)
          match scanExponent rest with
          | none => .ok (.float (.ofDecimal neg all (-frac.length)), rest)
          | some (e, rest) => .ok (.float (.ofDecimal neg all (e - frac.length)), rest)

/-! ## Values -/

/-- Strip a literal from the front. -/
def literal (word : PyStr) (s : PyStr) : Option PyStr :=
  if word.isPrefixOf s then some (s.drop word.length) else none

/-- The literals, in the order of the scanner. -/
def scanLiteral (s : PyStr) : Option (PyValue × PyStr) :=
  ((literal (py "null") s).map (.none, ·)).or <|
  ((literal (py "true") s).map (.bool true, ·)).or <|
  ((literal (py "false") s).map (.bool false, ·)).or <|
  ((literal (py "NaN") s).map (.float .nan, ·)).or <|
  ((literal (py "Infinity") s).map (.float (.inf false), ·)).or <|
  (literal (py "-Infinity") s).map (.float (.inf true), ·)

def scanNumber (lim : IntLimit) : PyStr → Scan PyValue
  | [] => .error .decode
  | c :: rest => if c = ch '-' then scanUnsigned lim true rest else scanUnsigned lim false (c :: rest)

/-- A key and its colon; leaves the first character of the value. -/
def scanKey : PyStr → Scan PyStr
  | [] => .error .decode
  | q :: s =>
      if q ≠ ch '"' then .error .decode
      else
        match scanString s.length s with
        | .error e => .error e
        | .ok (key, rest) =>
            match skipWs rest with
            | [] => .error .decode
            | d :: rest => if d = ch ':' then .ok (key, skipWs rest) else .error .decode

mutual

/-- `scan_once`. -/
def scanOnce (lim : IntLimit) : Nat → PyStr → Scan PyValue
  | 0, _ => .error .decode
  | _ + 1, [] => .error .decode
  | fuel + 1, c :: rest =>
      if c = ch '"' then (scanString rest.length rest).map fun p => (.str p.1, p.2)
      else if c = ch '{' then
        match skipWs rest with
        | d :: rest' => if d = ch '}' then .ok (.dict [], rest')
            else scanMembers lim fuel (d :: rest') []
        | [] => .error .decode
      else if c = ch '[' then
        match skipWs rest with
        | d :: rest' => if d = ch ']' then .ok (.list [], rest')
            else scanElements lim fuel (d :: rest') []
        | [] => .error .decode
      else
        match scanLiteral (c :: rest) with
        | some p => .ok p
        | none => scanNumber lim (c :: rest)

/-- The elements of an array, from the first character of one. -/
def scanElements (lim : IntLimit) : Nat → PyStr → List PyValue → Scan PyValue
  | 0, _, _ => .error .decode
  | fuel + 1, s, acc =>
      match scanOnce lim fuel s with
      | .error e => .error e
      | .ok (v, rest) =>
          match skipWs rest with
          | [] => .error .decode
          | d :: rest =>
              if d = ch ']' then .ok (.list (acc ++ [v]), rest)
              else if d = ch ',' then scanElements lim fuel (skipWs rest) (acc ++ [v])
              else .error .decode

/-- The members of an object, from the first character of a key. -/
def scanMembers (lim : IntLimit) : Nat → PyStr → PyDict → Scan PyValue
  | 0, _, _ => .error .decode
  | fuel + 1, s, acc =>
      match scanKey s with
      | .error e => .error e
      | .ok (key, rest) =>
          match scanOnce lim fuel rest with
          | .error e => .error e
          | .ok (v, rest) =>
              match skipWs rest with
              | [] => .error .decode
              | d :: rest =>
                  if d = ch '}' then .ok (.dict (acc.insert key v), rest)
                  else if d = ch ',' then scanMembers lim fuel (skipWs rest) (acc.insert key v)
                  else .error .decode

end

/-- `json.loads`. -/
def loads (lim : IntLimit) (s : PyStr) : Except Error PyValue :=
  if s.head? = some 0xFEFF then .error .decode
  else
    match scanOnce lim s.length (skipWs s) with
    | .error e => .error e
    | .ok (v, rest) => if skipWs rest = [] then .ok v else .error .decode

/-! ## Which error it is -/

theorem scanString_error {fuel : Nat} : ∀ {s : PyStr} {e : Error},
    scanString fuel s = .error e → e = .decode := by
  induction fuel with
  | zero =>
    intro s e h
    cases h
    rfl
  | succ fuel ih =>
    intro s e h
    cases s with
    | nil =>
      cases h
      rfl
    | cons c rest =>
      simp only [scanString] at h
      split at h
      · cases h
      · split at h
        · split at h
          · cases h
            rfl
          · exact ih (Check.map_eq_error h)
        · split at h
          · cases h
            rfl
          · exact ih (Check.map_eq_error h)

theorem scanKey_error {s : PyStr} {e : Error} (h : scanKey s = .error e) : e = .decode := by
  unfold scanKey at h
  split at h
  · cases h; rfl
  · split at h
    · cases h; rfl
    · split at h
      · next hs =>
        cases h
        exact scanString_error hs
      · split at h
        · cases h; rfl
        · split at h
          · cases h
          · cases h; rfl

section Unlimited

variable {lim : IntLimit} (hlim : lim.digits = 0)

include hlim

theorem scanUnsigned_ne_value {neg : Bool} {s : PyStr} :
    scanUnsigned lim neg s ≠ .error .value := by
  intro h
  unfold scanUnsigned at h
  split at h
  · cases h
  · split at h
    · simp [toInt, hlim] at h
    · cases h
    · split at h <;> cases h

/-- Without a digit limit every error is a decoding error. -/
theorem scan_ne_value (fuel : Nat) : (∀ s, scanOnce lim fuel s ≠ .error .value) ∧
    (∀ s acc, scanElements lim fuel s acc ≠ .error .value) ∧
    ∀ s acc, scanMembers lim fuel s acc ≠ .error .value := by
  induction fuel with
  | zero => simp [scanOnce, scanElements, scanMembers]
  | succ fuel ih =>
    obtain ⟨ihOnce, ihElements, ihMembers⟩ := ih
    refine ⟨?_, ?_, ?_⟩
    · intro s h
      cases s with
      | nil => simp [scanOnce] at h
      | cons c rest =>
        simp only [scanOnce] at h
        split at h
        · cases scanString_error (Check.map_eq_error h)
        · split at h
          · split at h
            · split at h
              · cases h
              · exact ihMembers _ _ h
            · cases h
          · split at h
            · split at h
              · split at h
                · cases h
                · exact ihElements _ _ h
              · cases h
            · split at h
              · cases h
              · simp only [scanNumber] at h
                split at h <;> exact scanUnsigned_ne_value hlim h
    · intro s acc h
      simp only [scanElements] at h
      split at h
      · next hs =>
        cases h
        exact ihOnce _ hs
      · split at h
        · cases h
        · split at h
          · cases h
          · split at h
            · exact ihElements _ _ h
            · cases h
    · intro s acc h
      simp only [scanMembers] at h
      split at h
      · next hk =>
        cases h
        cases scanKey_error hk
      · split at h
        · next hs =>
          cases h
          exact ihOnce _ hs
        · split at h
          · cases h
          · split at h
            · cases h
            · split at h
              · exact ihMembers _ _ h
              · cases h

theorem loads_ne_value (s : PyStr) : loads lim s ≠ .error .value := by
  intro h
  unfold loads at h
  split at h
  · cases h
  · split at h
    · next hs =>
      cases h
      exact (scan_ne_value hlim _).1 _ hs
    · split at h <;> cases h

end Unlimited

end Json

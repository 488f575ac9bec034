import VDevLab.Lib.Xml

/-!
# Written documents are read back

The escapes of a text stand for its characters, and a character that the
encoding has not is a reference, which XML takes for its own characters only.
So a written document is well-formed, and says what was written, exactly when
all its texts are of XML characters.
-/

namespace Xml

open PyStr

/-! ## References -/

/-- The word is read as one character, or not at all. -/
def Stands (w : PyStr) (r : Option CodePoint) : Prop :=
  ∀ s, expand none (w ++ s) = r.bind fun c => (expand none s).map (c :: ·)

theorem expand_name {w : PyStr} (h : ∀ c ∈ w, c ≠ ch ';') (name s : PyStr) :
    expand (some name) (w ++ ch ';' :: s) =
      (reference (name ++ w)).bind fun r => (expand none s).map (r :: ·) := by
  induction w generalizing name with
  | nil =>
    rw [List.nil_append, List.append_nil, expand, if_pos rfl]
    rfl
  | cons c w ih =>
    obtain ⟨hc, hw⟩ := List.forall_mem_cons.mp h
    rw [List.cons_append, expand, if_neg hc, ih hw, List.append_assoc, List.singleton_append]

theorem stands_reference {w : PyStr} (h : ∀ c ∈ w, c ≠ ch ';') :
    Stands (ch '&' :: w ++ [ch ';']) (reference w) := by
  intro s
  rw [List.cons_append, List.cons_append, List.append_assoc, List.singleton_append, expand,
    if_pos rfl, expand_name h, List.nil_append]

theorem stands_plain {c : CodePoint} (hamp : c ≠ ch '&') (hlt : c ≠ ch '<') :
    Stands [c] (some c) := by
  intro s
  rw [List.singleton_append, expand, if_neg hamp, if_neg hlt]
  rfl

theorem legalChar_val (c : CodePoint) :
    legalChar c.val = if isXmlChar c then some c else none := by
  rw [legalChar, dif_pos c.isLt]

theorem after_append (word s : PyStr) : after word (word ++ s) = some s := by
  rw [after, if_pos (List.isPrefixOf_iff_prefix.mpr (List.prefix_append word s)),
    List.drop_left]

theorem after_eq_none {word s : PyStr} (h : ¬ word <+: s) : after word s = none :=
  if_neg fun hp => h (List.isPrefixOf_iff_prefix.mp hp)

theorem reference_decimal (n : Nat) : reference (ch '#' :: decimal n) = legalChar n := by
  obtain ⟨hne, hdigits, -⟩ := isNumeral_decimal n
  obtain ⟨d, ds, hd⟩ := List.exists_cons_of_ne_nil hne
  have hname : ∀ w : PyStr, w.head? ≠ some (ch '#') → ¬ ch '#' :: decimal n = w := by
    rintro w hw rfl
    exact hw rfl
  have hhex : after (py "#x") (ch '#' :: decimal n) = none := by
    refine after_eq_none fun hp => ?_
    have hx : d = ch 'x' := by
      have hpy : py "#x" = [ch '#', ch 'x'] := rfl
      rw [hpy, hd, List.cons_prefix_cons, List.cons_prefix_cons] at hp
      exact hp.2.1.symm
    rw [hd, hx] at hdigits
    exact absurd (List.all_eq_true.mp hdigits _ List.mem_cons_self) (by decide)
  have hdec : after (py "#") (ch '#' :: decimal n) = some (decimal n) := after_append (py "#") _
  rw [reference, if_neg (hname _ (by decide)), if_neg (hname _ (by decide)),
    if_neg (hname _ (by decide)), if_neg (hname _ (by decide)), if_neg (hname _ (by decide)),
    hhex, hdec]
  have hnonempty : (decimal n).isEmpty = false := by rw [hd, List.isEmpty_cons]
  simp [hdigits, hnonempty, natOfDigits_decimal]

/-! ## Escapes -/

/-- What escapes are made of. -/
def isRefChar (c : CodePoint) : Bool :=
  isDigit c || (0x61 ≤ c.val && c.val ≤ 0x7a) || c == ch '&' || c == ch '#' || c == ch ';'

/-- Read as it is, or by its number. -/
def readable (encodes : CodePoint → Bool) (c : CodePoint) : Bool := encodes c || isXmlChar c

section Encoded

variable {encodes : CodePoint → Bool}

theorem charRefs_append (s t : PyStr) :
    charRefs encodes (s ++ t) = charRefs encodes s ++ charRefs encodes t :=
  List.flatMap_append

theorem charRefs_flatMap {α : Type} (f : α → PyStr) (s : List α) :
    charRefs encodes (s.flatMap f) = s.flatMap fun c => charRefs encodes (f c) :=
  List.flatMap_assoc

theorem charRefs_eq_self {s : PyStr} (h : s.all encodes = true) : charRefs encodes s = s := by
  induction s with
  | nil => rfl
  | cons c s ih =>
    rw [List.all_cons, Bool.and_eq_true] at h
    rw [charRefs, List.flatMap_cons, if_pos h.1, List.singleton_append, ← charRefs, ih h.2]

theorem all_charRef {q : CodePoint → Bool} (hq : ∀ c, isRefChar c = true → q c = true)
    (c : CodePoint) : (charRef c).all q = true := by
  have hdigits : (decimal c.val).all q = true := by
    rw [List.all_eq_true]
    intro d hd
    have hdigit := List.all_eq_true.mp (isNumeral_decimal c.val).2.1 d hd
    exact hq d (by simp [isRefChar, hdigit])
  have hopen : (py "&#").all q = true := by
    have hchars : (py "&#").all isRefChar = true := by decide
    exact List.all_eq_true.mpr fun d hd => hq d (List.all_eq_true.mp hchars d hd)
  have hclose : (py ";").all q = true := by
    have hchars : (py ";").all isRefChar = true := by decide
    exact List.all_eq_true.mpr fun d hd => hq d (List.all_eq_true.mp hchars d hd)
  rw [charRef, List.all_append, List.all_append, hopen, hdigits, hclose]
  rfl

variable (hascii : ∀ c : CodePoint, c.val < 0x80 → encodes c = true)

include hascii

theorem charRefs_ascii {s : PyStr} (h : (s.all fun c => decide (c.val < 0x80)) = true) :
    charRefs encodes s = s := by
  rw [List.all_eq_true] at h
  exact charRefs_eq_self (List.all_eq_true.mpr fun c hc => hascii c (of_decide_eq_true (h c hc)))

omit hascii in
/-- A character that is no markup is written as it is, or by its number. -/
theorem stands_char {c : CodePoint} (hamp : c ≠ ch '&') (hlt : c ≠ ch '<') :
    Stands (charRefs encodes [c]) (if readable encodes c then some c else none) := by
  unfold readable
  cases hc : encodes c with
  | true =>
    rw [charRefs_eq_self (by rw [List.all_cons, hc]; rfl), if_pos (Bool.true_or _)]
    exact stands_plain hamp hlt
  | false =>
    have hsemicolon : ∀ d ∈ ch '#' :: decimal c.val, d ≠ ch ';' := by
      intro d hd
      rcases List.mem_cons.mp hd with rfl | hd
      · decide
      · rintro rfl
        exact absurd (List.all_eq_true.mp (isNumeral_decimal c.val).2.1 _ hd) (by decide)
    have hword : charRefs encodes [c] = ch '&' :: (ch '#' :: decimal c.val) ++ [ch ';'] := by
      have hopen : py "&#" = [ch '&', ch '#'] := rfl
      simp only [charRefs, List.flatMap_cons, List.flatMap_nil, hc, charRef, hopen]
      simp [py]
    rw [hword, Bool.false_or, ← legalChar_val, ← reference_decimal]
    exact stands_reference hsemicolon

theorem stands_escape {w : PyStr} {c : CodePoint} (hw : (w.all (· != ch ';')) = true)
    (hwords : (w.all fun c => decide (c.val < 0x80)) = true) (hc : c.val < 0x80)
    (h : reference w = some c) :
    Stands (charRefs encodes (ch '&' :: w ++ [ch ';'])) (if readable encodes c then some c else none) := by
  have hreadable : readable encodes c = true := by
    rw [readable, hascii c hc, Bool.true_or]
  have hself : charRefs encodes (ch '&' :: w ++ [ch ';']) = ch '&' :: w ++ [ch ';'] := by
    apply charRefs_ascii hascii
    rw [List.cons_append, List.all_cons, List.all_append, hwords]
    decide
  rw [hself, if_pos hreadable, ← h]
  exact stands_reference fun d hd => by simpa using List.all_eq_true.mp hw d hd

theorem stands_cdata (c : CodePoint) :
    Stands (charRefs encodes (escapeCdata c)) (if readable encodes c then some c else none) := by
  unfold escapeCdata
  split
  · next h => exact h ▸ stands_escape hascii (w := py "amp") (by decide) (by decide) (by decide) rfl
  · next hamp =>
    split
    · next h => exact h ▸ stands_escape hascii (w := py "lt") (by decide) (by decide) (by decide) rfl
    · next hlt =>
      split
      · next h =>
        exact h ▸ stands_escape hascii (w := py "gt") (by decide) (by decide) (by decide) rfl
      · exact stands_char hamp hlt

theorem stands_attrib (c : CodePoint) :
    Stands (charRefs encodes (escapeAttrib c)) (if readable encodes c then some c else none) := by
  unfold escapeAttrib
  split
  · next h => exact h ▸ stands_escape hascii (w := py "quot") (by decide) (by decide) (by decide) rfl
  · split
    · next h => exact h ▸ stands_escape hascii (w := py "#13") (by decide) (by decide) (by decide) rfl
    · split
      · next h =>
        exact h ▸ stands_escape hascii (w := py "#10") (by decide) (by decide) (by decide) rfl
      · split
        · next h =>
          exact h ▸ stands_escape hascii (w := py "#09") (by decide) (by decide) (by decide) rfl
        · exact stands_cdata hascii c

omit hascii in
theorem expand_flatMap {f : CodePoint → PyStr}
    (hf : ∀ c, Stands (f c) (if readable encodes c then some c else none)) (s : PyStr) :
    expand none (s.flatMap f) = if s.all (readable encodes) then some s else none := by
  induction s with
  | nil => rfl
  | cons c s ih =>
    rw [List.flatMap_cons, hf c, ih, List.all_cons]
    cases readable encodes c <;> cases s.all (readable encodes) <;> rfl

/-! ## What escapes are made of -/

variable {q : CodePoint → Bool} (hq : ∀ c, isRefChar c = true → q c = true)

include hq

omit hascii in
theorem all_charRefs (s : PyStr) :
    (charRefs encodes s).all q = s.all fun c => !encodes c || q c := by
  rw [charRefs, List.all_flatMap]
  congr 1
  funext c
  cases hc : encodes c with
  | true => simp
  | false => simp [all_charRef hq]

omit hascii in
theorem all_word {w : PyStr} (h : w.all isRefChar = true) : (charRefs encodes w).all q = true := by
  rw [all_charRefs hq, List.all_eq_true]
  intro c hc
  rw [hq c (List.all_eq_true.mp h c hc), Bool.or_true]

omit hascii in
theorem all_cdata (c : CodePoint) : (charRefs encodes (escapeCdata c)).all q =
    ([ch '&', ch '<', ch '>'].contains c || !encodes c || q c) := by
  unfold escapeCdata
  split
  · next h =>
    subst h
    rw [all_word hq (by decide)]
    rfl
  · next hamp =>
    split
    · next h =>
      subst h
      rw [all_word hq (by decide)]
      rfl
    · next hlt =>
      split
      · next h =>
        subst h
        rw [all_word hq (by decide)]
        rfl
      · next hgt =>
        rw [all_charRefs hq]
        simp [hamp, hlt, hgt]

omit hascii in
theorem all_attrib (c : CodePoint) : (charRefs encodes (escapeAttrib c)).all q =
    ([ch '"', ch '\r', ch '\n', ch '\t', ch '&', ch '<', ch '>'].contains c || !encodes c || q c) := by
  unfold escapeAttrib
  split
  · next h =>
    subst h
    rw [all_word hq (by decide)]
    rfl
  · next hquot =>
    split
    · next h =>
      subst h
      rw [all_word hq (by decide)]
      rfl
    · next hcr =>
      split
      · next h =>
        subst h
        rw [all_word hq (by decide)]
        rfl
      · next hlf =>
        split
        · next h =>
          subst h
          rw [all_word hq (by decide)]
          rfl
        · next htab =>
          rw [all_cdata hq]
          simp [hquot, hcr, hlf, htab]

end Encoded

/-! ## Pieces of a document -/

section Pieces

variable {encodes : CodePoint → Bool}

theorem takeWhile_flatMap {f : CodePoint → PyStr} {stop : CodePoint}
    (hf : ∀ c, (f c).all (· != stop) = true) (s rest : PyStr) :
    (s.flatMap f ++ stop :: rest).takeWhile (· != stop) = s.flatMap f ∧
      (s.flatMap f ++ stop :: rest).dropWhile (· != stop) = stop :: rest := by
  have hall : ∀ d ∈ s.flatMap f, (d != stop) = true := by
    intro d hd
    obtain ⟨c, -, hc⟩ := List.mem_flatMap.mp hd
    exact List.all_eq_true.mp (hf c) d hc
  constructor
  · rw [List.takeWhile_append_of_pos hall, List.takeWhile_cons_of_neg (by simp), List.append_nil]
  · rw [List.dropWhile_append_of_pos hall, List.dropWhile_cons_of_neg (by simp)]

theorem ne_of_refChar {stop : CodePoint} (hstop : isRefChar stop = false) (d : CodePoint)
    (hd : isRefChar d = true) : (d != stop) = true := by
  rw [bne_iff_ne]
  intro h
  rw [h, hstop] at hd
  cases hd

theorem cdata_all_ne {stop : CodePoint} (hstop : isRefChar stop = false)
    (hescaped : [ch '&', ch '<', ch '>'].contains stop = true) (c : CodePoint) :
    (charRefs encodes (escapeCdata c)).all (· != stop) = true := by
  rw [all_cdata (ne_of_refChar hstop)]
  by_cases hc : c = stop
  · rw [hc, hescaped]
    rfl
  · simp [hc]

theorem attrib_all_ne {stop : CodePoint} (hstop : isRefChar stop = false)
    (hescaped : [ch '"', ch '\r', ch '\n', ch '\t', ch '&', ch '<', ch '>'].contains stop = true)
    (c : CodePoint) : (charRefs encodes (escapeAttrib c)).all (· != stop) = true := by
  rw [all_attrib (ne_of_refChar hstop)]
  by_cases hc : c = stop
  · rw [hc, hescaped]
    rfl
  · simp [hc]

/-- The blanks of a value are spaces, the others are written as references. -/
theorem attrib_blank (c : CodePoint) :
    ((charRefs encodes (escapeAttrib c)).map fun d => if isWs d then ch ' ' else d) =
      charRefs encodes (escapeAttrib c) := by
  have hblank : (charRefs encodes (escapeAttrib c)).all (fun d => !isWs d || d == ch ' ') = true := by
    rw [all_attrib]
    · by_cases hc : isWs c = true
      · simp only [isWs, Bool.or_eq_true, beq_iff_eq] at hc
        rcases hc with ((rfl | rfl) | rfl) | rfl
        · simp
        · rfl
        · rfl
        · rfl
      · simp [hc]
    · intro d hd
      by_cases hws : isWs d = true
      · simp only [isWs, Bool.or_eq_true, beq_iff_eq] at hws
        rcases hws with ((rfl | rfl) | rfl) | rfl <;> exact absurd hd (by decide)
      · simp [hws]
  conv_rhs => rw [← List.map_id (charRefs encodes (escapeAttrib c))]
  apply List.map_congr_left
  intro d hd
  have hspace := List.all_eq_true.mp hblank d hd
  by_cases hws : isWs d = true
  · have heq : d = ch ' ' := by simpa [hws] using hspace
    rw [if_pos hws, heq]
    rfl
  · rw [if_neg hws]
    rfl

variable (hascii : ∀ c : CodePoint, c.val < 0x80 → encodes c = true)

include hascii

/-- The text up to the next tag. -/
theorem characters_written (s : PyStr) {rest : PyStr} (hrest : rest.head? = some (ch '<')) :
    characters (charRefs encodes (s.flatMap escapeCdata) ++ rest) =
      if s.all (readable encodes) then some (s, rest) else none := by
  obtain ⟨rest, rfl⟩ : ∃ r, rest = ch '<' :: r := List.head?_eq_some_iff.mp hrest
  rw [charRefs_flatMap]
  have hlt : ∀ c, (charRefs encodes (escapeCdata c)).all (· != ch '<') = true :=
    cdata_all_ne (by decide) (by decide)
  obtain ⟨htake, hdrop⟩ := takeWhile_flatMap hlt s rest
  have hgt : isSubstring (py "]]>") (s.flatMap fun c => charRefs encodes (escapeCdata c)) = false := by
    rw [Bool.eq_false_iff]
    intro hsub
    have hmem : ch '>' ∈ s.flatMap fun c => charRefs encodes (escapeCdata c) :=
      (isSubstring_iff.mp hsub).subset (by decide)
    obtain ⟨c, -, hc⟩ := List.mem_flatMap.mp hmem
    have hne : (charRefs encodes (escapeCdata c)).all (· != ch '>') = true :=
      cdata_all_ne (by decide) (by decide) c
    simpa using List.all_eq_true.mp hne _ hc
  simp only [characters, htake, hdrop, hgt]
  rw [expand_flatMap (stands_cdata hascii)]
  cases s.all (readable encodes) <;> rfl

theorem quoted_written (s rest : PyStr) :
    quoted (ch '"' :: charRefs encodes (s.flatMap escapeAttrib) ++ ch '"' :: rest) =
      if s.all (readable encodes) then some (s, rest) else none := by
  rw [charRefs_flatMap]
  have hquot : ∀ c, (charRefs encodes (escapeAttrib c)).all (· != ch '"') = true :=
    attrib_all_ne (by decide) (by decide)
  obtain ⟨htake, hdrop⟩ := takeWhile_flatMap hquot s rest
  rw [List.cons_append, quoted, if_pos (by decide), hdrop, htake]
  simp only [List.map_flatMap, attrib_blank]
  rw [expand_flatMap (stands_attrib hascii)]
  cases s.all (readable encodes) <;> rfl

omit hascii in
theorem name_append {w rest : PyStr} (hw : isName w = true)
    (hrest : ∀ c ∈ rest.head?, isNameChar c = false) : name (w ++ rest) = some (w, rest) := by
  have hall : ∀ c ∈ w, isNameChar c = true := by
    cases w with
    | nil => cases hw
    | cons c w =>
      rw [isName, Bool.and_eq_true] at hw
      refine List.forall_mem_cons.mpr ⟨?_, List.all_eq_true.mp hw.2⟩
      rw [isNameChar, hw.1, Bool.true_or]
  have htake : rest.takeWhile isNameChar = [] ∧ rest.dropWhile isNameChar = rest := by
    cases rest with
    | nil => exact ⟨rfl, rfl⟩
    | cons c rest =>
      have hc : ¬ isNameChar c = true := by rw [hrest c rfl]; decide
      exact ⟨List.takeWhile_cons_of_neg hc, List.dropWhile_cons_of_neg hc⟩
  rw [name, List.takeWhile_append_of_pos hall, List.dropWhile_append_of_pos hall, htake.1, htake.2,
    List.append_nil, if_pos hw]

/-! ## Tags -/

/-- A name that the encoding has. -/
def isWritableName (encodes : CodePoint → Bool) (s : PyStr) : Bool := isName s && s.all encodes

omit hascii in
theorem skipWs_cons {c : CodePoint} (h : isWs c = false) (s : PyStr) : skipWs (c :: s) = c :: s :=
  List.dropWhile_cons_of_neg (by rw [h]; decide)

omit hascii in
/-- No name begins with a blank. -/
theorem skipWs_name {w rest : PyStr} (hw : isName w = true) :
    skipWs (ch ' ' :: w ++ rest) = w ++ rest := by
  have hskip : skipWs (ch ' ' :: w ++ rest) = skipWs (w ++ rest) :=
    List.dropWhile_cons_of_pos (by decide)
  cases w with
  | nil => cases hw
  | cons d w =>
    rw [isName, Bool.and_eq_true] at hw
    rw [hskip, List.cons_append, skipWs_cons]
    rw [Bool.eq_false_iff]
    intro hws
    simp only [isWs, Bool.or_eq_true, beq_iff_eq] at hws
    rcases hws with ((rfl | rfl) | rfl) | rfl <;> exact absurd hw.1 (by decide)

theorem charRefs_attribute {a : PyStr × PyStr} (h : isWritableName encodes a.1 = true) :
    charRefs encodes (printAttribute a) =
      ch ' ' :: a.1 ++ (py "=\"" ++ (charRefs encodes (a.2.flatMap escapeAttrib) ++ [ch '"'])) := by
  rw [isWritableName, Bool.and_eq_true] at h
  have hblank : charRefs encodes [ch ' '] = [ch ' '] := charRefs_ascii hascii (by decide)
  have hopen : charRefs encodes (py "=\"") = py "=\"" := charRefs_ascii hascii (by decide)
  have hclose : charRefs encodes [ch '"'] = [ch '"'] := charRefs_ascii hascii (by decide)
  rw [printAttribute, ← List.singleton_append, charRefs_append, charRefs_append, charRefs_append,
    charRefs_append, hblank, charRefs_eq_self h.2, hopen, hclose]
  simp

/-- What is behind the attributes of a tag. -/
def EndsTag (rest : PyStr) : Prop := rest.head?.any isWs = false ∨ name (skipWs rest) = none

theorem attributes_written {pairs : List (PyStr × PyStr)} {rest : PyStr} (hrest : EndsTag rest)
    (hnames : ∀ a ∈ pairs, isWritableName encodes a.1 = true) :
    ∀ n, pairs.length < n →
      attributes n (charRefs encodes (pairs.flatMap printAttribute) ++ rest) =
        if pairs.all (fun a => a.2.all (readable encodes)) then some (pairs, rest) else none := by
  induction pairs with
  | nil =>
    intro n hn
    obtain ⟨n, rfl⟩ : ∃ m, n = m + 1 := ⟨n - 1, by omega⟩
    rw [List.flatMap_nil, charRefs, List.flatMap_nil, List.nil_append, attributes]
    rcases hrest with hblank | hname
    · rw [if_neg (by simp [hblank])]
      rfl
    · rw [hname]
      exact ite_self _
  | cons a pairs ih =>
    intro n hn
    obtain ⟨n, rfl⟩ : ∃ m, n = m + 1 := ⟨n - 1, by omega⟩
    obtain ⟨ha, hnames⟩ := List.forall_mem_cons.mp hnames
    have hname : isName a.1 = true := by
      rw [isWritableName, Bool.and_eq_true] at ha
      exact ha.1
    have hrec := ih hnames n (by simpa using hn)
    generalize hbehind : charRefs encodes (pairs.flatMap printAttribute) ++ rest = behind at hrec
    have htext : charRefs encodes ((a :: pairs).flatMap printAttribute) ++ rest =
        ch ' ' :: a.1 ++
          ch '=' :: (ch '"' :: charRefs encodes (a.2.flatMap escapeAttrib) ++ ch '"' :: behind) := by
      have hopen : py "=\"" = [ch '=', ch '"'] := rfl
      rw [List.flatMap_cons, charRefs_append, charRefs_attribute hascii ha, List.append_assoc, hbehind,
        hopen]
      simp
    generalize hvalue : ch '"' :: charRefs encodes (a.2.flatMap escapeAttrib) ++ ch '"' :: behind
      = value at htext
    have hquoted : quoted value = if a.2.all (readable encodes) then some (a.2, behind) else none := by
      rw [← hvalue, List.cons_append]
      exact quoted_written hascii a.2 behind
    have hskip : skipWs value = value := by
      rw [← hvalue]
      exact skipWs_cons (by decide) _
    have hkey : name (a.1 ++ ch '=' :: value) = some (a.1, ch '=' :: value) := by
      refine name_append hname ?_
      intro c hc
      cases hc
      decide
    have hafter : after (py "=") (ch '=' :: value) = some value := after_append (py "=") value
    have hblank : (ch ' ' :: a.1 ++ ch '=' :: value).head?.any isWs = true := rfl
    rw [htext, attributes, if_pos hblank, skipWs_name hname, hkey]
    simp only [skipWs_cons (c := ch '=') (by decide), hafter, hskip, hquoted, Option.bind_eq_bind,
      Option.bind_some, List.all_cons]
    by_cases hread : a.2.all (readable encodes) = true
    · by_cases hall : (pairs.all fun a => a.2.all (readable encodes)) = true
      · simp [hread, hall, hrec]
      · simp [hread, hall, hrec]
    · simp [hread]

/-! ## Elements -/

theorem charRefs_cons {c : CodePoint} (hc : c.val < 0x80) (s : PyStr) :
    charRefs encodes (c :: s) = c :: charRefs encodes s := by
  rw [charRefs, List.flatMap_cons, if_pos (hascii c hc)]
  rfl

theorem charRefs_serialize {tag : PyStr} (htag : isWritableName encodes tag = true)
    (pairs : List (PyStr × PyStr)) (text : PyStr) (children : List (Element × PyStr)) :
    charRefs encodes (serialize (.element tag pairs text children)) =
      ch '<' :: (tag ++ (charRefs encodes (pairs.flatMap printAttribute) ++
        if text.isEmpty && children.isEmpty then py " />"
        else ch '>' :: (charRefs encodes (text.flatMap escapeCdata) ++
          (charRefs encodes (serializeChildren children) ++ (py "</" ++ (tag ++ [ch '>'])))))) := by
  rw [isWritableName, Bool.and_eq_true] at htag
  have hself : charRefs encodes tag = tag := charRefs_eq_self htag.2
  have hempty : charRefs encodes (py " />") = py " />" := charRefs_ascii hascii (by decide)
  have hend : charRefs encodes (py "</") = py "</" := charRefs_ascii hascii (by decide)
  have hclose : charRefs encodes [ch '>'] = [ch '>'] := charRefs_ascii hascii (by decide)
  rw [serialize, List.cons_append, List.cons_append, charRefs_cons hascii (by decide), charRefs_append,
    charRefs_append, hself, List.append_assoc]
  by_cases hnone : (text.isEmpty && children.isEmpty) = true
  · rw [if_pos hnone, if_pos hnone, hempty]
  · rw [if_neg hnone, if_neg hnone, List.cons_append, List.cons_append, List.cons_append,
      List.cons_append, charRefs_cons hascii (by decide), charRefs_append, charRefs_append,
      charRefs_append, charRefs_append, hself, hend, hclose]
    simp

theorem serialize_head (e : Element) (rest : PyStr) :
    (charRefs encodes (serialize e) ++ rest).head? = some (ch '<') := by
  obtain ⟨tag, pairs, text, children⟩ := e
  rw [serialize, List.cons_append, List.cons_append, charRefs_cons hascii (by decide)]
  rfl

/-- No start tag is taken for an end tag. -/
theorem serialize_open {e : Element} (h : e.named (isWritableName encodes) = true) (rest : PyStr) :
    (py "</").isPrefixOf (charRefs encodes (serialize e) ++ rest) = false := by
  obtain ⟨tag, pairs, text, children⟩ := e
  simp only [Element.named, Bool.and_eq_true] at h
  have htag : isWritableName encodes tag = true := h.1.1.1
  rw [charRefs_serialize hascii htag, Bool.eq_false_iff]
  intro hprefix
  cases tag with
  | nil => cases htag
  | cons c tag =>
    have hslash : ch '/' = c := by
      have hend : py "</" = [ch '<', ch '/'] := rfl
      rw [List.isPrefixOf_iff_prefix, hend] at hprefix
      exact (List.cons_prefix_cons.mp (List.cons_prefix_cons.mp hprefix).2).1
    simp only [isWritableName, isName, Bool.and_eq_true] at htag
    rw [← hslash] at htag
    exact absurd htag.1.1 (by decide)

theorem serializeChildren_head (children : List (Element × PyStr)) (rest : PyStr) :
    (charRefs encodes (serializeChildren children) ++ (py "</" ++ rest)).head? = some (ch '<') := by
  cases children with
  | nil => rfl
  | cons child children =>
    obtain ⟨child, tail⟩ := child
    rw [serializeChildren, charRefs_append, charRefs_append, List.append_assoc, List.append_assoc]
    exact serialize_head hascii child _

theorem length_attributes (pairs : List (PyStr × PyStr)) :
    pairs.length ≤ (charRefs encodes (pairs.flatMap printAttribute)).length := by
  induction pairs with
  | nil => exact Nat.zero_le _
  | cons a pairs ih =>
    have hlength : 0 < (charRefs encodes (printAttribute a)).length := by
      rw [printAttribute, List.cons_append, List.cons_append, List.cons_append,
        charRefs_cons hascii (by decide)]
      exact Nat.succ_pos _
    rw [List.flatMap_cons, charRefs_append, List.length_append, List.length_cons]
    omega

/-- The name of a tag ends before its attributes. -/
theorem attributes_head (pairs : List (PyStr × PyStr)) {rest : PyStr}
    (hrest : ∀ c ∈ rest.head?, isNameChar c = false) :
    ∀ c ∈ (charRefs encodes (pairs.flatMap printAttribute) ++ rest).head?, isNameChar c = false := by
  cases pairs with
  | nil => exact hrest
  | cons a pairs =>
    rw [List.flatMap_cons, printAttribute, List.cons_append, List.cons_append, List.cons_append,
      List.cons_append, charRefs_cons hascii (by decide)]
    intro c hc
    cases hc
    decide

mutual

theorem element_written : ∀ (e : Element) (rest : PyStr) (n : Nat),
    e.named (isWritableName encodes) = true → (charRefs encodes (serialize e)).length ≤ n →
      element n (charRefs encodes (serialize e) ++ rest) =
        if e.everyChar (readable encodes) then some (e, rest) else none
  | .element tag pairs text children, rest, n, hnamed, hlength => by
    simp only [Element.named, Bool.and_eq_true, List.all_eq_true, decide_eq_true_eq] at hnamed
    obtain ⟨⟨⟨htag, hnames⟩, hnodup⟩, hchildren⟩ := hnamed
    have hname : isName tag = true := by
      rw [isWritableName, Bool.and_eq_true] at htag
      exact htag.1
    rw [charRefs_serialize hascii htag] at hlength ⊢
    obtain ⟨n, rfl⟩ : ∃ m, n = m + 1 := ⟨n - 1, by simp at hlength; omega⟩
    have hstart : ∀ s : PyStr, after (py "<") (ch '<' :: s) = some s := after_append (py "<")
    by_cases hnone : (text.isEmpty && children.isEmpty) = true
    · rw [if_pos hnone] at hlength ⊢
      simp only [Bool.and_eq_true, List.isEmpty_iff] at hnone
      obtain ⟨rfl, rfl⟩ := hnone
      have hends : EndsTag (py " />" ++ rest) := .inr rfl
      have hslash : ∀ c ∈ (py " />" ++ rest).head?, isNameChar c = false := by
        intro c hc
        cases hc
        decide
      have hkey := name_append hname (attributes_head hascii pairs hslash)
      have hempty : after (py "/>") (skipWs (py " />" ++ rest)) = some rest := after_append (py "/>") rest
      rw [List.cons_append, List.append_assoc, List.append_assoc, element]
      simp only [hstart, hkey, Option.bind_eq_bind, Option.bind_some]
      rw [attributes_written hascii hends hnames _ (by
        have := length_attributes hascii pairs
        rw [List.length_append]
        omega)]
      by_cases hread : (pairs.all fun a => a.2.all (readable encodes)) = true
      · simp [hread, hnodup, hempty, Element.everyChar, Element.every, Element.everyChild]
      · simp [hread, Element.everyChar, Element.every]
    · rw [if_neg hnone] at hlength ⊢
      simp only [List.cons_append, List.append_assoc, List.nil_append]
      generalize hend : tag ++ ch '>' :: rest = ending
      have hskip : ∀ s : PyStr, skipWs (ch '>' :: s) = ch '>' :: s := skipWs_cons (by decide)
      have hopened : ∀ s : PyStr, after (py ">") (ch '>' :: s) = some s := after_append (py ">")
      have hunclosed : ∀ s : PyStr, after (py "/>") (ch '>' :: s) = none := fun s => rfl
      have hended : after (py "</" ++ tag) (py "</" ++ ending) = some (ch '>' :: rest) := by
        rw [← hend, ← List.append_assoc]
        exact after_append _ _
      have htext := characters_written hascii text (serializeChildren_head hascii children ending)
      have hcontent := content_written children ending n hchildren (by
        simp only [List.length_cons, List.length_append] at hlength
        omega)
      generalize hbody : charRefs encodes (text.flatMap escapeCdata) ++
        (charRefs encodes (serializeChildren children) ++ (py "</" ++ ending)) = body at htext ⊢
      have hends : EndsTag (ch '>' :: body) := .inl rfl
      have hbracket : ∀ c ∈ (ch '>' :: body).head?, isNameChar c = false := by
        intro c hc
        cases hc
        decide
      have hkey := name_append hname (attributes_head hascii pairs hbracket)
      rw [element]
      simp only [hstart, hkey, Option.bind_eq_bind, Option.bind_some]
      rw [attributes_written hascii hends hnames _ (by
        have := length_attributes hascii pairs
        rw [List.length_append]
        omega)]
      by_cases hread : (pairs.all fun a => a.2.all (readable encodes)) = true
      · by_cases hreadText : text.all (readable encodes) = true
        · by_cases hreadChildren : Element.everyChild (·.all (readable encodes)) (·.all (readable encodes)) children = true
          · simp [hread, hreadText, hreadChildren, hnodup, hskip, hopened, hunclosed, htext, hcontent,
              hended, Element.everyChar, Element.every]
          · simp [hread, hreadText, hreadChildren, hnodup, hskip, hopened, hunclosed, htext, hcontent,
              Element.everyChar, Element.every]
        · simp [hread, hreadText, hnodup, hskip, hopened, hunclosed, htext, Element.everyChar, Element.every]
      · simp [hread, Element.everyChar, Element.every]

theorem content_written : ∀ (children : List (Element × PyStr)) (rest : PyStr) (n : Nat),
    Element.namedChildren (isWritableName encodes) children = true →
      (charRefs encodes (serializeChildren children)).length < n →
      content n (charRefs encodes (serializeChildren children) ++ (py "</" ++ rest)) =
        if Element.everyChild (·.all (readable encodes)) (·.all (readable encodes)) children then
          some (children, py "</" ++ rest)
        else none
  | [], rest, n, hnamed, hlength => by
    obtain ⟨n, rfl⟩ : ∃ m, n = m + 1 := ⟨n - 1, by omega⟩
    rfl
  | (child, tail) :: children, rest, n, hnamed, hlength => by
    obtain ⟨n, rfl⟩ : ∃ m, n = m + 1 := ⟨n - 1, by omega⟩
    simp only [Element.namedChildren, Bool.and_eq_true] at hnamed
    obtain ⟨hchild, hchildren⟩ := hnamed
    rw [serializeChildren, charRefs_append, charRefs_append] at hlength ⊢
    simp only [List.length_append, List.append_assoc] at hlength ⊢
    have hlt : 0 < (charRefs encodes (serialize child)).length := by
      have hhead := serialize_head hascii child []
      rw [List.append_nil] at hhead
      cases hempty : charRefs encodes (serialize child) with
      | nil =>
        rw [hempty] at hhead
        cases hhead
      | cons c s => exact Nat.succ_pos _
    have hfirst := element_written child (charRefs encodes (tail.flatMap escapeCdata) ++
      (charRefs encodes (serializeChildren children) ++ (py "</" ++ rest))) n hchild (by omega)
    have htail := characters_written hascii tail (serializeChildren_head hascii children rest)
    have hrest := content_written children rest n hchildren (by omega)
    rw [Element.everyChar] at hfirst
    rw [content, if_neg (by rw [serialize_open hascii hchild]; decide)]
    simp only [hfirst, Option.bind_eq_bind]
    by_cases hreadChild : child.every (·.all (readable encodes)) (·.all (readable encodes)) = true
    · by_cases hreadTail : tail.all (readable encodes) = true
      · by_cases hreadRest : Element.everyChild (·.all (readable encodes)) (·.all (readable encodes)) children = true
        · simp [hreadChild, hreadTail, hreadRest, htail, hrest, Element.everyChild]
        · simp [hreadChild, hreadTail, hreadRest, htail, hrest, Element.everyChild]
      · simp [hreadChild, hreadTail, htail, Element.everyChild]
    · simp [hreadChild, Element.everyChild]

end

/-! ## The characters of a document -/

section Characters

set_option linter.unusedSectionVars false

variable {q : CodePoint → Bool} (hq : ∀ c, isRefChar c = true → q c = true)
  (hname : ∀ c, isNameChar c = true → q c = true) (hmarkup : (py "<>/=\" ").all q = true)

include hq hname hmarkup

omit hascii hq hmarkup in
theorem all_name {w : PyStr} (h : isWritableName encodes w = true) : w.all q = true := by
  rw [isWritableName, Bool.and_eq_true] at h
  cases w with
  | nil => rfl
  | cons c w =>
    rw [isName, Bool.and_eq_true, List.all_eq_true] at h
    rw [List.all_cons, hname c (by rw [isNameChar, h.1.1, Bool.true_or]), Bool.true_and,
      List.all_eq_true]
    exact fun d hd => hname d (h.1.2 d hd)

/-- The characters that `q` is asked about in a value. -/
def valueChar (encodes q : CodePoint → Bool) (c : CodePoint) : Bool :=
  [ch '"', ch '\r', ch '\n', ch '\t', ch '&', ch '<', ch '>'].contains c || !encodes c || q c

/-- The characters that `q` is asked about in a text. -/
def dataChar (encodes q : CodePoint → Bool) (c : CodePoint) : Bool :=
  [ch '&', ch '<', ch '>'].contains c || !encodes c || q c

omit hascii hname hmarkup in
theorem all_data (s : PyStr) :
    (charRefs encodes (s.flatMap escapeCdata)).all q = s.all (dataChar encodes q) := by
  rw [charRefs_flatMap, List.all_flatMap]
  exact List.all_congr rfl (all_cdata hq)

theorem all_attributes {pairs : List (PyStr × PyStr)}
    (h : ∀ a ∈ pairs, isWritableName encodes a.1 = true) :
    (charRefs encodes (pairs.flatMap printAttribute)).all q =
      pairs.all fun a => a.2.all (valueChar encodes q) := by
  induction pairs with
  | nil => rfl
  | cons a pairs ih =>
    obtain ⟨ha, hrest⟩ := List.forall_mem_cons.mp h
    have hvalue : (charRefs encodes (a.2.flatMap escapeAttrib)).all q =
        a.2.all (valueChar encodes q) := by
      rw [charRefs_flatMap, List.all_flatMap]
      exact List.all_congr rfl (all_attrib hq)
    have hchars := List.all_eq_true.mp hmarkup
    have hopen : py "=\"" = [ch '=', ch '"'] := rfl
    rw [List.flatMap_cons, charRefs_append, List.all_append, ih hrest, charRefs_attribute hascii ha,
      hopen]
    simp [all_name hname ha, hvalue, hchars (ch ' ') (by decide), hchars (ch '=') (by decide),
      hchars (ch '"') (by decide)]

mutual

theorem all_serialize : ∀ e : Element, e.named (isWritableName encodes) = true →
    (charRefs encodes (serialize e)).all q =
      e.every (·.all (valueChar encodes q)) (·.all (dataChar encodes q))
  | .element tag pairs text children, h => by
    simp only [Element.named, Bool.and_eq_true, List.all_eq_true] at h
    obtain ⟨⟨⟨htag, hnames⟩, -⟩, hchildren⟩ := h
    have hrest := all_serializeChildren children hchildren
    have hchars := List.all_eq_true.mp hmarkup
    have hclosed : (py " />").all q = true := by
      have hword : py " />" = [ch ' ', ch '/', ch '>'] := rfl
      simp [hword, hchars (ch ' ') (by decide), hchars (ch '/') (by decide),
        hchars (ch '>') (by decide)]
    have hend : (py "</").all q = true := by
      have hword : py "</" = [ch '<', ch '/'] := rfl
      simp [hword, hchars (ch '<') (by decide), hchars (ch '/') (by decide)]
    rw [charRefs_serialize hascii htag, Element.every, List.all_cons, List.all_append, List.all_append,
      all_name hname htag, all_attributes hascii hq hname hmarkup hnames, hchars (ch '<') (by decide)]
    by_cases hnone : (text.isEmpty && children.isEmpty) = true
    · rw [if_pos hnone, hclosed]
      simp only [Bool.and_eq_true, List.isEmpty_iff] at hnone
      simp [hnone, Element.everyChild]
    · rw [if_neg hnone]
      simp [all_data hq, hrest, hend, all_name hname htag, hchars (ch '>') (by decide), Bool.and_assoc]

theorem all_serializeChildren : ∀ children : List (Element × PyStr),
    Element.namedChildren (isWritableName encodes) children = true →
    (charRefs encodes (serializeChildren children)).all q =
      Element.everyChild (·.all (valueChar encodes q)) (·.all (dataChar encodes q)) children
  | [], _ => rfl
  | (child, tail) :: children, h => by
    rw [Element.namedChildren, Bool.and_eq_true] at h
    rw [serializeChildren, charRefs_append, charRefs_append, List.all_append, List.all_append,
      all_data hq, all_serialize child h.1, all_serializeChildren children h.2, Element.everyChild]

end

end Characters

/-! ## Documents -/

omit hascii in
theorem declaration_written (s : PyStr) :
    declaration (py "<?xml version='1.0' encoding='utf-8'?>\n" ++ s) = some (ch '\n' :: s) := rfl

omit hascii in
theorem isXmlChar_nameChar (c : CodePoint) (h : isNameChar c = true) : isXmlChar c = true := by
  simp only [isNameChar, isNameStart, inRanges, List.any_cons, List.any_nil, Bool.or_eq_true,
    Bool.and_eq_true, decide_eq_true_eq, Bool.or_false] at h
  simp only [isXmlChar, Bool.or_eq_true, Bool.and_eq_true, decide_eq_true_eq, beq_iff_eq]
  omega

omit hascii in
theorem isXmlChar_refChar (c : CodePoint) (h : isRefChar c = true) : isXmlChar c = true := by
  simp only [isRefChar, isDigit, Bool.or_eq_true, Bool.and_eq_true, decide_eq_true_eq,
    beq_iff_eq] at h
  rcases h with (((h | h) | rfl) | rfl) | rfl
  · simp only [isXmlChar, Bool.or_eq_true, Bool.and_eq_true, decide_eq_true_eq, beq_iff_eq]
    omega
  · simp only [isXmlChar, Bool.or_eq_true, Bool.and_eq_true, decide_eq_true_eq, beq_iff_eq]
    omega
  · decide
  · decide
  · decide

theorem all_write {q : CodePoint → Bool} (hq : ∀ c, isRefChar c = true → q c = true)
    (hname : ∀ c, isNameChar c = true → q c = true)
    (hdeclaration : (py "<>/=\" '?\n").all q = true) {e : Element}
    (hnamed : e.named (isWritableName encodes) = true) :
    (write encodes e).all q = e.every (·.all (valueChar encodes q)) (·.all (dataChar encodes q)) := by
  have hchars := List.all_eq_true.mp hdeclaration
  have hmarkup : (py "<>/=\" ").all q = true :=
    List.all_eq_true.mpr fun c hc => hchars c (List.mem_of_mem_take (i := 6) hc)
  have hdecl : (py "<?xml version='1.0' encoding='utf-8'?>\n").all q = true := by
    have hword : (py "<?xml version='1.0' encoding='utf-8'?>\n").all (fun c =>
        isNameChar c || (py "<>/=\" '?\n").contains c) = true := by decide
    rw [List.all_eq_true] at hword ⊢
    intro c hc
    rcases Bool.or_eq_true_iff.mp (hword c hc) with h | h
    · exact hname c h
    · exact hchars c (List.contains_iff_mem.mp h)
  rw [write, charRefs_append, charRefs_ascii hascii (by decide), List.all_append, hdecl,
    Bool.true_and, all_serialize hascii hq hname hmarkup e hnamed]

omit hascii in
theorem valueChar_legal : valueChar encodes isXmlChar = fun c => !encodes c || isXmlChar c := by
  funext c
  by_cases hc : [ch '"', ch '\r', ch '\n', ch '\t', ch '&', ch '<', ch '>'].contains c = true
  · have hlegal : isXmlChar c = true := by
      have hall : [ch '"', ch '\r', ch '\n', ch '\t', ch '&', ch '<', ch '>'].all isXmlChar = true := by
        decide
      exact List.all_eq_true.mp hall c (List.contains_iff_mem.mp hc)
    rw [valueChar, hlegal, Bool.or_true, Bool.or_true]
  · rw [valueChar, Bool.eq_false_iff.mpr hc, Bool.false_or]

omit hascii in
theorem dataChar_legal : dataChar encodes isXmlChar = fun c => !encodes c || isXmlChar c := by
  funext c
  by_cases hc : [ch '&', ch '<', ch '>'].contains c = true
  · have hlegal : isXmlChar c = true := by
      have hall : [ch '&', ch '<', ch '>'].all isXmlChar = true := by decide
      exact List.all_eq_true.mp hall c (List.contains_iff_mem.mp hc)
    rw [dataChar, hlegal, Bool.or_true, Bool.or_true]
  · rw [dataChar, Bool.eq_false_iff.mpr hc, Bool.false_or]

/-- A carriage return in a value is written as a reference. -/
theorem write_no_return {e : Element} (hnamed : e.named (isWritableName encodes) = true)
    (hlines : e.every (fun _ => true) (·.all (· != ch '\r')) = true) :
    ch '\r' ∉ write encodes e := by
  have hall : (write encodes e).all (· != ch '\r') = true := by
    rw [all_write hascii (ne_of_refChar (by decide)) _ (by decide) hnamed]
    · refine Element.every_mono ?_ ?_ hlines
      · intro s _
        rw [List.all_eq_true]
        intro c _
        by_cases hc : c = ch '\r'
        · rw [valueChar, hc]
          rfl
        · simp [valueChar, hc]
      · intro s hs
        rw [List.all_eq_true] at hs ⊢
        intro c hc
        rw [dataChar, hs c hc, Bool.or_true]
    · intro c hc
      by_cases hreturn : c = ch '\r'
      · rw [hreturn] at hc
        exact absurd hc (by decide)
      · simpa using hreturn
  intro hmem
  exact absurd (List.all_eq_true.mp hall _ hmem) (by decide)

omit hascii in
theorem parse_legal {s : PyStr} {e : Element} (h : parse s = some e) : ∀ c ∈ s, isXmlChar c = true := by
  by_contra hillegal
  rw [parse, if_neg (fun hall => hillegal (List.all_eq_true.mp hall))] at h
  cases h

/-- What is left of a document behind its declaration. -/
theorem declaration_write (e : Element) (behind : PyStr) :
    ∃ s, declaration (write encodes e ++ behind) = some s ∧
      s = ch '\n' :: (charRefs encodes (serialize e) ++ behind) := by
  refine ⟨_, ?_, rfl⟩
  rw [write, charRefs_append, charRefs_ascii hascii (by decide), List.append_assoc]
  exact declaration_written _

theorem root_written {e : Element} (hnamed : e.named (isWritableName encodes) = true)
    {s behind : PyStr} (hs : s = ch '\n' :: (charRefs encodes (serialize e) ++ behind)) :
    element s.length (skipWs s) =
      if e.everyChar (readable encodes) then some (e, behind) else none := by
  have hskip : skipWs s = charRefs encodes (serialize e) ++ behind := by
    obtain ⟨t, ht⟩ := List.head?_eq_some_iff.mp (serialize_head hascii e behind)
    have hblank : isWs (ch '\n') = true := by decide
    rw [hs, ht, skipWs, List.dropWhile_cons_of_pos hblank]
    exact skipWs_cons (by decide) t
  rw [hskip]
  apply element_written hascii e behind _ hnamed
  rw [hs, List.length_cons, List.length_append]
  omega

/-- **A written document is read back** when all its characters are XML's, and
is not well-formed otherwise. -/
theorem parse_write {e : Element} (hnamed : e.named (isWritableName encodes) = true)
    (hlines : e.every (fun _ => true) (·.all (· != ch '\r')) = true) {behind : PyStr}
    (hbehind : (behind.all fun c => isWs c && c != ch '\r') = true) :
    parse (write encodes e ++ behind) = if e.everyChar isXmlChar then some e else none := by
  rw [← all_and_all, Bool.and_eq_true, List.all_eq_true] at hbehind
  obtain ⟨hblank, hlast⟩ := hbehind
  have hlegal : (write encodes e ++ behind).all isXmlChar =
      e.everyChar fun c => !encodes c || isXmlChar c := by
    have hws : behind.all isXmlChar = true := by
      rw [List.all_eq_true]
      intro c hc
      have hc := hblank c hc
      simp only [isWs, Bool.or_eq_true, beq_iff_eq] at hc
      rcases hc with ((rfl | rfl) | rfl) | rfl <;> decide
    rw [List.all_append, hws, Bool.and_true, Element.everyChar,
      all_write hascii isXmlChar_refChar isXmlChar_nameChar (by decide) hnamed, valueChar_legal,
      dataChar_legal]
  have hreturn : ch '\r' ∉ write encodes e ++ behind := by
    rw [List.mem_append, not_or]
    refine ⟨write_no_return hascii hnamed hlines, ?_⟩
    intro hmem
    exact absurd (List.all_eq_true.mp hlast _ hmem) (by decide)
  have hboth : (e.everyChar (fun c => !encodes c || isXmlChar c) && e.everyChar (readable encodes)) =
      e.everyChar isXmlChar := by
    have hchar : ∀ c, ((!encodes c || isXmlChar c) && readable encodes c) = isXmlChar c := by
      intro c
      unfold readable
      cases encodes c <;> simp
    simp only [Element.everyChar, Element.every_and, all_and_all, hchar]
  rw [parse, hlegal]
  by_cases hchars : e.everyChar (fun c => !encodes c || isXmlChar c) = true
  · obtain ⟨s, hdeclaration, hs⟩ := declaration_write hascii e behind
    rw [hchars, Bool.true_and] at hboth
    rw [if_pos hchars, normalizeLines_eq_self hreturn, hdeclaration, ← hboth]
    simp only [Option.bind_eq_bind, Option.bind_some, root_written hascii hnamed hs]
    by_cases hread : e.everyChar (readable encodes) = true
    · rw [if_pos hread, if_pos hread, Option.bind_some, if_pos (List.all_eq_true.mpr hblank)]
    · simp [hread]
  · rw [if_neg hchars, ← hboth, Bool.eq_false_iff.mpr hchars]
    rfl

end Pieces

end Xml

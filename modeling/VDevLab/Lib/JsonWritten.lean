import VDevLab.Lib.JsonWrite

/-!
# When a printed text is JSON

A document whose floats are numbers is printed as a text of the grammar that
stands for it. With any other float the text is no JSON: a word with a capital
N or I stands outside of its strings, and no text of the grammar has one
there.
-/

namespace Json

open PyStr PyValue

/-! ## Inside and outside of strings -/

/-- Where a reader of a text is, as far as strings go. -/
inductive Place
  | outside
  | inside
  | escaped

/-- There is no capital N or I outside of the strings. -/
def wordless : Place → PyStr → Bool
  | _, [] => true
  | .outside, c :: s =>
      if c = ch '"' then wordless .inside s
      else !(c == ch 'N' || c == ch 'I') && wordless .outside s
  | .inside, c :: s =>
      if c = ch '"' then wordless .outside s
      else if c = ch '\\' then wordless .escaped s
      else wordless .inside s
  | .escaped, _ :: s => wordless .inside s

/-- The characters that neither begin a string nor a word. -/
def isBare (c : CodePoint) : Bool := !(c == ch '"' || c == ch 'N' || c == ch 'I')

theorem wordless_bare {t : PyStr} (h : t.all isBare = true) (rest : PyStr) :
    wordless .outside (t ++ rest) = wordless .outside rest := by
  induction t with
  | nil => rfl
  | cons c t ih =>
    rw [List.all_cons, Bool.and_eq_true] at h
    obtain ⟨hc, ht⟩ := h
    simp only [isBare, Bool.not_eq_true', Bool.or_eq_false_iff, beq_eq_false_iff_ne] at hc
    obtain ⟨⟨hquote, hN⟩, hI⟩ := hc
    simp [wordless, hquote, hN, hI, ih ht]

/-- Inside of a string, up to the next quote or backslash. -/
theorem wordless_inside {t : PyStr} (h : ∀ c ∈ t, c ≠ ch '"' ∧ c ≠ ch '\\') (rest : PyStr) :
    wordless .inside (t ++ rest) = wordless .inside rest := by
  induction t with
  | nil => rfl
  | cons c t ih =>
    obtain ⟨hquote, hslash⟩ := h c List.mem_cons_self
    simp [wordless, hquote, hslash, ih fun d hd => h d (List.mem_cons_of_mem c hd)]

theorem Hex.mem_ne {h : PyStr} {u : Nat} (hx : Hex h u) : ∀ c ∈ h, c ≠ ch '"' ∧ c ≠ ch '\\' := by
  have hdigit : ∀ {c : CodePoint} {d : Nat}, Json.hexDigit c = some d → c ≠ ch '"' ∧ c ≠ ch '\\' := by
    intro c d hc
    constructor
    · rintro rfl
      cases hc.symm.trans (show Json.hexDigit (ch '"') = Option.none by decide)
    · rintro rfl
      cases hc.symm.trans (show Json.hexDigit (ch '\\') = Option.none by decide)
  unfold Hex at hx
  match h with
  | [] | [_] | [_, _] | [_, _, _] => cases hx
  | a :: b :: c :: d :: more =>
    simp only [Json.hex4, Option.bind_eq_bind, Option.bind_eq_some_iff, Option.pure_def,
      Option.some.injEq, Prod.mk.injEq] at hx
    obtain ⟨a', ha, b', hb, c', hc, d', hd, rfl, rfl⟩ := hx
    simp only [List.forall_mem_cons]
    exact ⟨hdigit ha, hdigit hb, hdigit hc, hdigit hd, by simp⟩

theorem wordless_unit {h : PyStr} {u : Nat} (hx : Hex h u) (rest : PyStr) :
    wordless .inside (ch '\\' :: ch 'u' :: (h ++ rest)) = wordless .inside rest := by
  have hslash : ch '\\' ≠ ch '"' := by decide
  simp only [wordless, if_neg hslash, if_true]
  exact wordless_inside hx.mem_ne rest

/-- A string is left at its closing quote. -/
theorem Chars.wordless {t s : PyStr} (h : Chars t s) (rest : PyStr) :
    Json.wordless .inside (t ++ ch '"' :: rest) = Json.wordless .outside rest := by
  have hslash : ch '\\' ≠ ch '"' := by decide
  induction h with
  | nil => simp [Json.wordless]
  | raw hc _ ih => simp [Json.wordless, hc.1, hc.2.1, ih]
  | simple _ _ ih => simp [Json.wordless, hslash, ih]
  | unit hx _ _ ih => rw [List.cons_append, List.cons_append, List.append_assoc, wordless_unit hx, ih]
  | pair hx _ hk _ _ ih =>
    simp only [List.cons_append, List.append_assoc]
    rw [wordless_unit hx, wordless_unit hk, ih]

/-! ## Texts of the grammar have no words -/

/-- A text after which one is outside again, and met no word. -/
def Wordless (t : PyStr) : Prop := ∀ rest, wordless .outside (t ++ rest) = wordless .outside rest

theorem Wordless.bare {t : PyStr} (h : t.all isBare = true) : Wordless t := wordless_bare h

theorem Wordless.append {s t : PyStr} (hs : Wordless s) (ht : Wordless t) : Wordless (s ++ t) := by
  intro rest
  rw [List.append_assoc, hs, ht]

theorem Wordless.cons {c : CodePoint} {t : PyStr} (hc : isBare c = true) (ht : Wordless t) :
    Wordless (c :: t) := by
  have hbare : Wordless [c] := .bare (by rw [List.all_cons, hc]; rfl)
  exact hbare.append ht

theorem Wordless.ws {w : PyStr} (h : Ws w) : Wordless w := by
  apply Wordless.bare
  rw [List.all_eq_true]
  intro c hc
  have hws := h c hc
  simp only [isWs, Bool.or_eq_true, beq_iff_eq] at hws
  rcases hws with ((rfl | rfl) | rfl) | rfl <;> decide

theorem Wordless.string {t s : PyStr} (h : Chars t s) : Wordless (ch '"' :: (t ++ [ch '"'])) := by
  intro rest
  rw [List.cons_append, List.append_assoc, List.singleton_append, wordless, if_pos rfl]
  exact h.wordless rest

theorem isBare_numberChar {c : CodePoint} (h : isNumberChar c = true) : isBare c = true := by
  have hdigit : ∀ d : CodePoint, isDigit d = false → isDigit c = true → c ≠ d := by
    rintro d hd hc rfl
    cases hd.symm.trans hc
  simp only [isNumberChar, Bool.or_eq_true, beq_iff_eq] at h
  rcases h with ((((hd | rfl) | rfl) | rfl) | rfl) | rfl
  · simp [isBare, hdigit (ch '"') (by decide) hd, hdigit (ch 'N') (by decide) hd,
      hdigit (ch 'I') (by decide) hd]
  all_goals decide

theorem Wordless.number {t : PyStr} (h : t.all isNumberChar = true) : Wordless t := by
  apply Wordless.bare
  rw [List.all_eq_true] at h ⊢
  exact fun c hc => isBare_numberChar (h c hc)

theorem Wordless.listed {texts : List PyStr} (h : ∀ t ∈ texts, Wordless t) :
    Wordless (Json.listed texts) := by
  induction texts with
  | nil => exact fun rest => rfl
  | cons t texts ih =>
    have ht := h t List.mem_cons_self
    cases texts with
    | nil => rwa [listed_singleton]
    | cons u texts =>
      rw [listed_cons_cons]
      exact ht.append (.cons (by decide) (ih fun v hv => h v (List.mem_cons_of_mem t hv)))

theorem Wordless.item {i : Item} (hspaced : i.Spaced) (h : Wordless i.text) : Wordless i.print :=
  (Wordless.ws hspaced.1).append (h.append (.ws hspaced.2))

theorem Wordless.pair {p : Pair} (hspaced : p.Spaced) (hname : Chars p.nameText p.name)
    (h : Wordless p.text) : Wordless p.print := by
  have hcolon : Wordless (p.gap ++ ch ':' :: p.toItem.print) :=
    (Wordless.ws hspaced.2.1).append (.cons (by decide) (.item hspaced.2.2 h))
  have htext : p.print =
      p.lead ++ ((ch '"' :: (p.nameText ++ [ch '"'])) ++ (p.gap ++ ch ':' :: p.toItem.print)) := by
    simp [Pair.print]
  rw [htext]
  exact (Wordless.ws hspaced.1).append ((Wordless.string hname).append hcolon)

theorem Value.wordless {numeral : PyStr → Prop} {t : PyStr} {v : PyValue}
    (h : Value numeral t v) : Wordless t := by
  induction h with
  | null => exact .bare (by decide)
  | true => exact .bare (by decide)
  | false => exact .bare (by decide)
  | number hn => exact .number hn.all
  | string hs => exact .string hs
  | emptyArray hw => exact .cons (by decide) ((Wordless.ws hw).append (.bare (by decide)))
  | emptyObject hw => exact .cons (by decide) ((Wordless.ws hw).append (.bare (by decide)))
  | array _ hspaced _ ih =>
    refine .cons (by decide) (Wordless.append (.listed ?_) (.bare (by decide)))
    intro t ht
    obtain ⟨i, hi, rfl⟩ := List.mem_map.mp ht
    exact .item (hspaced i hi) (ih i hi)
  | object _ hspaced hnames _ ih =>
    refine .cons (by decide) (Wordless.append (.listed ?_) (.bare (by decide)))
    intro t ht
    obtain ⟨p, hp, rfl⟩ := List.mem_map.mp ht
    exact .pair (hspaced p hp) (hnames p hp) (ih p hp)

theorem Text.wordless {numeral : PyStr → Prop} {s : PyStr} {v : PyValue}
    (h : Text numeral s v) : Json.wordless .outside s = true := by
  obtain ⟨before, t, after, hbefore, hvalue, hafter, rfl⟩ := h
  rw [Wordless.ws hbefore, hvalue.wordless, ← List.append_nil after, Wordless.ws hafter]
  rfl

/-! ## Printed texts -/

theorem chars_escape {t s : PyStr} (h : Chars t s) (c : CodePoint) :
    Chars (JsonDoc.escape c ++ t) (c :: s) := by
  have hhex : ∀ n < 0x20, Hex [digit 0, digit 0, JsonDoc.hexDigit (n / 16),
      JsonDoc.hexDigit (n % 16)] n := by
    unfold Hex
    decide
  unfold JsonDoc.escape
  split
  · next hc => exact hc ▸ .simple (by decide) h
  · next hquote =>
    split
    · next hc => exact hc ▸ .simple (by decide) h
    · next hslash =>
      split
      · next hc => exact hc ▸ .simple (by decide) h
      · split
        · next hc => exact hc ▸ .simple (by decide) h
        · split
          · next hc => exact hc ▸ .simple (by decide) h
          · split
            · next hc => exact (Fin.ext hc : c = 0x0c) ▸ .simple (by decide) h
            · split
              · next hc => exact (Fin.ext hc : c = 0x08) ▸ .simple (by decide) h
              · split
                · next hc =>
                  have hlow : ¬ IsHigh c.val := by
                    unfold IsHigh
                    omega
                  have hunit := Chars.unit (hhex c.val hc) (fun hhigh => absurd hhigh hlow) h
                  rwa [show (Fin.ofNat 0x110000 c.val) = c by
                    ext
                    exact Nat.mod_eq_of_lt c.isLt] at hunit
                · next hlarge => exact .raw ⟨hquote, hslash, by omega⟩ h

theorem chars_flatMap (s : PyStr) : Chars (s.flatMap JsonDoc.escape) s := by
  induction s with
  | nil => exact .nil
  | cons c s ih => exact chars_escape ih c

/-! ### Layout -/

theorem newline_ws (level : Nat) : Ws (JsonDoc.newline level) := by
  intro c hc
  rcases List.mem_cons.mp hc with rfl | hc
  · decide
  · rw [List.eq_of_mem_replicate hc]
    decide

/-- The items between the brackets, each with the line break before it; the
last one has the closing line break. -/
def framed (level : Nat) : List PyStr → List PyStr
  | [] => []
  | [text] => [JsonDoc.newline (level + 1) ++ (text ++ JsonDoc.newline level)]
  | text :: texts => (JsonDoc.newline (level + 1) ++ text) :: framed level texts

theorem listed_framed (level : Nat) (text : PyStr) (texts : List PyStr) :
    listed (framed level (text :: texts)) =
      JsonDoc.newline (level + 1) ++ text ++
        texts.flatMap (fun t => ch ',' :: JsonDoc.newline (level + 1) ++ t) ++
        JsonDoc.newline level := by
  induction texts generalizing text with
  | nil => simp [framed]
  | cons u texts ih =>
    obtain ⟨v, vs, hframed⟩ : ∃ v vs, framed level (u :: texts) = v :: vs := by
      cases texts with
      | nil => exact ⟨_, _, rfl⟩
      | cons w texts => exact ⟨_, _, rfl⟩
    have hu := ih u
    rw [framed, hframed]
    · rw [listed_cons_cons, ← hframed, hu]
      simp
    · simp

theorem block_framed (level : Nat) (opening closing : CodePoint) {texts : List PyStr}
    (h : texts ≠ []) : JsonDoc.block level opening closing texts =
      opening :: (listed (framed level texts) ++ [closing]) := by
  obtain ⟨text, texts, rfl⟩ := List.exists_cons_of_ne_nil h
  rw [listed_framed, JsonDoc.block]
  simp

/-- Every item with the blanks behind it. -/
theorem framed_map {α : Type} (level : Nat) (text : α → PyStr) (as : List α) :
    ∃ spaced : List (α × PyStr), spaced.map Prod.fst = as ∧ (∀ r ∈ spaced, Ws r.2) ∧
      framed level (as.map text) =
        spaced.map fun r => JsonDoc.newline (level + 1) ++ (text r.1 ++ r.2) := by
  induction as with
  | nil => exact ⟨[], rfl, by simp, rfl⟩
  | cons a as ih =>
    obtain ⟨spaced, rfl, hws, hframed⟩ := ih
    cases spaced with
    | nil =>
      refine ⟨[(a, JsonDoc.newline level)], rfl, ?_, rfl⟩
      intro r hr
      cases List.mem_singleton.mp hr
      exact newline_ws level
    | cons s spaced =>
      refine ⟨(a, []) :: s :: spaced, rfl, ?_, ?_⟩
      · rw [List.forall_mem_cons]
        exact ⟨by simp [Ws], hws⟩
      · show (JsonDoc.newline (level + 1) ++ text a) :: framed level _ = _
        rw [hframed]
        simp

/-! ### The value of a text -/

theorem pairsDict_nodup {d : PyDict} {pairs : List Pair}
    (h : (d.map Prod.fst ++ pairs.map fun p => PyValue.str p.name).Nodup) :
    pairsDict d pairs = d ++ pairs.map fun p => (.str p.name, p.value) := by
  induction pairs generalizing d with
  | nil => simp [pairsDict]
  | cons p pairs ih =>
    have hnew : .str p.name ∉ d.map Prod.fst := by
      intro hmem
      have hdisjoint := (List.nodup_append.mp h).2.2
      exact hdisjoint _ hmem _ (by simp) rfl
    have hrest : ((d.insert p.name p.value).map Prod.fst ++
        pairs.map fun p => PyValue.str p.name).Nodup := by
      rw [PyDict.insert_of_notMem hnew]
      simpa using h
    show pairsDict (d.insert p.name p.value) pairs = _
    rw [ih hrest, PyDict.insert_of_notMem hnew]
    simp

/-- The entries in the order of a permutation of their rows. -/
theorem exists_rows {d : PyDict} {rows : List Row} (h : d.Perm (rows.map Row.entry)) :
    ∃ rows' : List Row, rows'.Perm rows ∧ d = rows'.map Row.entry := by
  have hcomp : Relation.Comp (· = List.map Row.entry ·) List.Perm d rows := by
    rw [List.eq_map_comp_perm]
    exact h
  obtain ⟨rows', hmap, hperm⟩ := hcomp
  exact ⟨rows', hperm, hmap⟩

section Blocks

variable {numeral : PyStr → Prop} (level : Nat)

theorem block_array {rows : List (PyValue × PyStr)} {f : PyValue × PyStr → PyValue}
    (h : ∀ r ∈ rows, Value numeral r.2 (f r)) :
    Value numeral (JsonDoc.block level (ch '[') (ch ']') (rows.map Prod.snd))
      (.list (rows.map f)) := by
  by_cases hne : rows = []
  · subst hne
    exact .emptyArray (w := []) (by simp [Ws])
  obtain ⟨spaced, rfl, hws, hframed⟩ := framed_map level Prod.snd rows
  have harray := @Value.array numeral (spaced.map fun r =>
    ⟨JsonDoc.newline (level + 1), r.1.2, r.2, f r.1⟩) (by simpa using hne) ?_ ?_
  · rw [block_framed _ _ _ (by simpa using hne), hframed, List.map_map]
    rw [List.map_map, List.map_map] at harray
    exact harray
  · intro i hi
    obtain ⟨r, hr, rfl⟩ := List.mem_map.mp hi
    exact ⟨newline_ws _, hws r hr⟩
  · intro i hi
    obtain ⟨r, hr, rfl⟩ := List.mem_map.mp hi
    exact h r.1 (List.mem_map_of_mem hr)

/-- A printed member as one of the grammar: on a line of its own, and a blank
behind the colon. -/
def Row.pair (level : Nat) (r : Row) (after : PyStr) (w : PyValue) : Pair where
  before := [ch ' ']
  text := r.text
  after := after
  value := w
  lead := JsonDoc.newline (level + 1)
  nameText := r.key.flatMap JsonDoc.escape
  name := r.key
  gap := []

theorem Row.pair_print (r : Row) (after : PyStr) (w : PyValue) :
    (r.pair level after w).print = JsonDoc.newline (level + 1) ++ (r.print ++ after) := by
  have hcolon : py ": " = [ch ':', ch ' '] := rfl
  simp [Row.pair, Pair.print, Item.print, Row.print, JsonDoc.quote, hcolon]

theorem block_object {rows : List Row} {f : Row → PyValue}
    (hkeys : (rows.map fun r => PyValue.str r.key).Nodup)
    (h : ∀ r ∈ rows, Value numeral r.text (f r)) :
    Value numeral (JsonDoc.block level (ch '\x7b') (ch '\x7d') (rows.map Row.print))
      (.dict (rows.map fun r => (.str r.key, f r))) := by
  by_cases hne : rows = []
  · subst hne
    exact .emptyObject (w := []) (by simp [Ws])
  obtain ⟨spaced, rfl, hws, hframed⟩ := framed_map level Row.print rows
  have hobject := @Value.object numeral
    (spaced.map fun r => r.1.pair level r.2 (f r.1)) (by simpa using hne) ?_ ?_ ?_
  · have hnames : (([] : PyDict).map Prod.fst ++
        (spaced.map fun r => r.1.pair level r.2 (f r.1)).map fun p => PyValue.str p.name).Nodup := by
      rw [List.map_map] at hkeys ⊢
      exact hkeys
    rw [pairsDict_nodup hnames, List.nil_append, List.map_map, List.map_map,
      List.map_congr_left fun r _ => Row.pair_print level r.1 r.2 (f r.1)] at hobject
    rw [block_framed _ _ _ (by simpa using hne), hframed, List.map_map]
    exact hobject
  · intro i hi
    obtain ⟨r, hr, rfl⟩ := List.mem_map.mp hi
    exact ⟨newline_ws _, by simp [Ws, Row.pair], by simp [Ws, Row.pair, isWs], hws r hr⟩
  · intro i hi
    obtain ⟨r, hr, rfl⟩ := List.mem_map.mp hi
    exact chars_flatMap _
  · intro i hi
    obtain ⟨r, hr, rfl⟩ := List.mem_map.mp hi
    exact h r.1 (List.mem_map_of_mem hr)

end Blocks

/-- A printed document is a text of the grammar, and stands for itself. -/
theorem Prints.value {lim : IntLimit} {level : Nat} {v : PyValue} {t : PyStr}
    (h : Prints lim level v t) (hfinite : v.everyScalar floatFinite = true) :
    ∃ w, Value (Fits lim) t w ∧ Same w v := by
  have hinhabited : Nonempty PyValue := ⟨.none⟩
  induction h with
  | none => exact ⟨_, .null, .refl _⟩
  | bool b =>
    cases b with
    | false => exact ⟨_, .false, .refl _⟩
    | true => exact ⟨_, .true, .refl _⟩
  | @int _ n hn =>
    have hfits : Fits lim (decimal n.natAbs) := by simpa [Admits, Fits] using hn
    exact ⟨_, .number (integer_number hfits), .refl _⟩
  | float x => exact ⟨_, .number (Binary64.dump_number _ hfinite), .refl _⟩
  | str s => exact ⟨_, .string (chars_flatMap s), .refl _⟩
  | @list level rows _ ih =>
    rw [everyScalar_list, List.all_map, List.all_eq_true] at hfinite
    choose! f hvalue hsame using fun r hr => ih r hr (hfinite r hr)
    refine ⟨_, block_array level hvalue, ?_⟩
    have hlist := Same.list (rows.map fun r => (f r, r.1)) ?_
    · rwa [List.map_map, List.map_map] at hlist
    · intro i hi
      obtain ⟨r, hr, rfl⟩ := List.mem_map.mp hi
      exact hsame r hr
  | @dict level d rows hkeyed hperm _ ih =>
    rw [everyScalar_dict, all_entries hperm, List.all_eq_true] at hfinite
    choose! f hvalue hsame using fun r hr =>
      ih r hr (Bool.and_eq_true_iff.mp (hfinite r hr)).2
    have hkeys : (rows.map fun r => PyValue.str r.key).Nodup := by
      have hnodup := (hkeyed.perm hperm).nodup
      rwa [List.map_map] at hnodup
    refine ⟨_, block_object level hkeys hvalue, ?_⟩
    -- the dict has the order in which its members are printed
    obtain ⟨rows', hrows, rfl⟩ := exists_rows hperm
    have hdict := Same.dict (d := rows.map fun r => (.str r.key, f r))
      (rows'.map fun r => (.str r.key, f r, r.value)) ?_ ?_
    · rwa [List.map_map] at hdict
    · intro e he
      obtain ⟨r, hr, rfl⟩ := List.mem_map.mp he
      exact hsame r (hrows.mem_iff.mp hr)
    · rw [List.map_map]
      exact (hrows.symm.map _)

/-! ## Floats that are no numbers -/

theorem Wordless.newline (level : Nat) : Wordless (JsonDoc.newline level) := .ws (newline_ws level)

theorem Wordless.quote (s : PyStr) : Wordless (JsonDoc.quote s) := .string (chars_flatMap s)

theorem wordless_block (level : Nat) {opening closing : CodePoint} (ho : isBare opening = true)
    (hc : isBare closing = true) {α : Type} {text : α → PyStr} {ok : α → Bool} {as : List α}
    (h : ∀ a ∈ as, ∀ rest, wordless .outside (text a ++ rest) = (ok a && wordless .outside rest))
    (rest : PyStr) : wordless .outside (JsonDoc.block level opening closing (as.map text) ++ rest) =
      (as.all ok && wordless .outside rest) := by
  have hopening : Wordless [opening] := .bare (by rw [List.all_cons, ho]; rfl)
  have hclosing : Wordless [closing] := .bare (by rw [List.all_cons, hc]; rfl)
  have hmore : ∀ (as : List α) (rest : PyStr), (∀ a ∈ as, ∀ rest,
      wordless .outside (text a ++ rest) = (ok a && wordless .outside rest)) →
      wordless .outside ((as.map text).flatMap (fun t =>
        ch ',' :: JsonDoc.newline (level + 1) ++ t) ++ rest) =
        (as.all ok && wordless .outside rest) := by
    intro as rest h
    induction as with
    | nil => rfl
    | cons a as ih =>
      have hcomma : Wordless (ch ',' :: JsonDoc.newline (level + 1)) :=
        .cons (by decide) (.newline _)
      rw [List.map_cons, List.flatMap_cons, List.append_assoc, List.append_assoc, hcomma,
        h a List.mem_cons_self, ih fun b hb => h b (List.mem_cons_of_mem a hb), List.all_cons,
        Bool.and_assoc]
  cases as with
  | nil => exact (hopening.append hclosing) rest
  | cons a as =>
    have htext : JsonDoc.block level opening closing ((a :: as).map text) ++ rest =
        [opening] ++ (JsonDoc.newline (level + 1) ++ (text a ++
          ((as.map text).flatMap (fun t => ch ',' :: JsonDoc.newline (level + 1) ++ t) ++
            (JsonDoc.newline level ++ ([closing] ++ rest))))) := by
      simp [JsonDoc.block]
    rw [htext, hopening, Wordless.newline, h a List.mem_cons_self,
      hmore as _ fun b hb => h b (List.mem_cons_of_mem a hb), Wordless.newline, hclosing,
      List.all_cons, Bool.and_assoc]

/-- A float is printed as a word exactly when it is no number. -/
theorem wordless_dump (x : Binary64) (rest : PyStr) :
    wordless .outside (x.dump ++ rest) = (x.isFinite && wordless .outside rest) := by
  by_cases hx : x.isFinite = true
  · rw [hx, Bool.true_and]
    exact Wordless.number (Binary64.dump_number (fun _ => True) hx).all rest
  · cases x with
    | nan => rfl
    | inf neg => cases neg <;> rfl
    | finite => exact absurd rfl hx

theorem Prints.wordless {lim : IntLimit} {level : Nat} {v : PyValue} {t : PyStr}
    (h : Prints lim level v t) (rest : PyStr) :
    Json.wordless .outside (t ++ rest) =
      (v.everyScalar floatFinite && Json.wordless .outside rest) := by
  induction h generalizing rest with
  | none => exact Wordless.bare (by decide) rest
  | bool b => cases b <;> exact Wordless.bare (by decide) rest
  | int _ => exact Wordless.number (@integer_number (fun _ => True) _ trivial).all rest
  | float x => exact wordless_dump x rest
  | str s => exact Wordless.quote s rest
  | list rows _ ih =>
    rw [wordless_block _ (by decide) (by decide) ih, everyScalar_list, List.all_map]
    rfl
  | dict rows _ hperm _ ih =>
    have hrow : ∀ r ∈ rows, ∀ rest, Json.wordless .outside (r.print ++ rest) =
        (r.value.everyScalar floatFinite && Json.wordless .outside rest) := by
      intro r hr rest
      have hkey : Wordless (JsonDoc.quote r.key ++ py ": ") :=
        (Wordless.quote r.key).append (.bare (by decide))
      rw [Row.print, List.append_assoc, hkey, ih r hr]
    rw [wordless_block _ (by decide) (by decide) hrow, everyScalar_dict, all_entries hperm]
    rfl

/-! ## What is loaded -/

theorem scanNumber_document {lim : IntLimit} {s rest : PyStr} {v : PyValue}
    (h : scanNumber lim s = .ok (v, rest)) : Document v := by
  have hunsigned : ∀ {neg s}, scanUnsigned lim neg s = .ok (v, rest) → Document v := by
    intro neg s h
    unfold scanUnsigned at h
    split at h
    · cases h
    · split at h
      · split at h
        · cases h
        · cases h
          exact .int _
      · cases h
        exact .float _
      · split at h <;> cases h <;> exact .float _
  cases s with
  | nil => cases h
  | cons c s =>
    rw [scanNumber] at h
    split at h <;> exact hunsigned h

theorem scanLiteral_document {s rest : PyStr} {v : PyValue} (h : scanLiteral s = some (v, rest)) :
    Document v := by
  simp only [scanLiteral, Option.or_eq_some_iff, Option.map_eq_some_iff, Prod.mk.injEq] at h
  rcases h with ⟨_, -, rfl, -⟩ | ⟨-, ⟨_, -, rfl, -⟩ | ⟨-, ⟨_, -, rfl, -⟩ | ⟨-, ⟨_, -, rfl, -⟩ |
    ⟨-, ⟨_, -, rfl, -⟩ | ⟨-, _, -, rfl, -⟩⟩⟩⟩⟩
  · exact .none
  · exact .bool _
  · exact .bool _
  · exact .float _
  · exact .float _
  · exact .float _

theorem scan_document {lim : IntLimit} (fuel : Nat) :
    (∀ s v rest, scanOnce lim fuel s = .ok (v, rest) → Document v) ∧
    (∀ s acc v rest, (∀ w ∈ acc, Document w) → scanElements lim fuel s acc = .ok (v, rest) →
      Document v) ∧
    ∀ s acc v rest, Document (.dict acc) → scanMembers lim fuel s acc = .ok (v, rest) →
      Document v := by
  induction fuel with
  | zero => simp [scanOnce, scanElements, scanMembers]
  | succ fuel ih =>
    obtain ⟨ihOnce, ihElements, ihMembers⟩ := ih
    refine ⟨?_, ?_, ?_⟩
    · intro s v rest h
      cases s with
      | nil => simp [scanOnce] at h
      | cons c s =>
        simp only [scanOnce] at h
        split at h
        · obtain ⟨p, -, hp⟩ := Check.map_eq_ok h
          cases hp
          exact .str _
        · split at h
          · split at h
            · split at h
              · cases h
                exact .dict .nil (by simp)
              · exact ihMembers _ _ _ _ (.dict .nil (by simp)) h
            · cases h
          · split at h
            · split at h
              · split at h
                · cases h
                  exact .list (by simp)
                · exact ihElements _ _ _ _ (by simp) h
              · cases h
            · split at h
              · next hliteral =>
                cases h
                exact scanLiteral_document hliteral
              · exact scanNumber_document h
    · intro s acc v rest hacc h
      simp only [scanElements] at h
      split at h
      · cases h
      · next w more hw =>
        have hall : ∀ u ∈ acc ++ [w], Document u := by
          intro u hu
          rcases List.mem_append.mp hu with hu | hu
          · exact hacc u hu
          · rw [List.mem_singleton.mp hu]
            exact ihOnce _ _ _ hw
        split at h
        · cases h
        · split at h
          · cases h
            exact .list hall
          · split at h
            · exact ihElements _ _ _ _ hall h
            · cases h
    · intro s acc v rest hacc h
      simp only [scanMembers] at h
      split at h
      · cases h
      · next key _ _ =>
        split at h
        · cases h
        · next w more hw =>
          have hinsert := hacc.insert key (ihOnce _ _ _ hw)
          split at h
          · cases h
          · split at h
            · cases h
              exact hinsert
            · split at h
              · exact ihMembers _ _ _ _ hinsert h
              · cases h

/-- `json.loads` returns documents. -/
theorem loads_document {lim : IntLimit} {s : PyStr} {v : PyValue} (h : loads lim s = .ok v) :
    Document v := by
  unfold loads at h
  split at h
  · cases h
  · split at h
    · cases h
    · next hscan =>
      split at h
      · cases h
        exact (scan_document _).1 _ _ _ hscan
      · cases h

/-- Dicts with a key for each field, as programs build them. -/
theorem document_ofList {l : List (String × PyValue)} (hkeys : (l.map fun kv => py kv.1).Nodup)
    (h : ∀ kv ∈ l, Document kv.2) : Document (.dict (PyDict.ofList l)) := by
  have hinj : Function.Injective PyValue.str := fun _ _ => PyValue.str.inj
  refine .dict ⟨?_, ?_⟩ ?_
  · rw [← List.nodup_map_iff hinj, List.map_map] at hkeys
    rwa [PyDict.ofList, List.map_map]
  · rw [PyDict.ofList, List.forall_mem_map]
    exact fun kv _ => ⟨_, rfl⟩
  · rw [PyDict.ofList, List.forall_mem_map]
    exact h

theorem document_object {members : List (PyStr × JsonDoc)} (hkeys : (members.map Prod.fst).Nodup)
    (h : ∀ m ∈ members, Document (ofDoc m.2)) : Document (ofDoc (.object members)) := by
  have hinj : Function.Injective PyValue.str := fun _ _ => PyValue.str.inj
  rw [ofDoc_object]
  refine .dict ⟨?_, ?_⟩ ?_
  · rw [← List.nodup_map_iff hinj, List.map_map] at hkeys
    rwa [List.map_map]
  · rw [List.forall_mem_map]
    exact fun m _ => ⟨_, rfl⟩
  · rw [List.forall_mem_map]
    exact h

/-! ## The three conditions -/

/-- A character that UTF-8 cannot encode. -/
def isSurrogate (c : CodePoint) : Bool := 0xD800 ≤ c.val && c.val ≤ 0xDFFF

def NoSurrogates (s : PyStr) : Prop := s.all (!isSurrogate ·) = true

theorem noSurrogates_append {s t : PyStr} :
    NoSurrogates (s ++ t) ↔ NoSurrogates s ∧ NoSurrogates t := by
  rw [NoSurrogates, List.all_append, Bool.and_eq_true]
  rfl

/-- A string of the source has none. -/
@[simp] theorem noSurrogates_py (s : String) : NoSurrogates (py s) := by
  rw [NoSurrogates, List.all_eq_true]
  intro c hc
  obtain ⟨d, -, rfl⟩ := List.mem_map.mp hc
  have hvalid := d.valid
  simp only [isSurrogate, CodePoint.ofChar, Bool.not_eq_true', Bool.and_eq_false_iff]
  rcases hvalid with h | h
  · exact .inl (decide_eq_false (not_le.mpr h))
  · exact .inr (decide_eq_false (not_le.mpr h.1))

theorem not_isSurrogate_ascii (c : CodePoint) (h : c.val < 0x80) : (!isSurrogate c) = true := by
  simp only [isSurrogate, Bool.not_eq_true', Bool.and_eq_false_iff, decide_eq_false_iff_not]
  omega

theorem noSurrogates_ascii {s : PyStr} (h : ∀ c ∈ s, c.val < 0x80) : NoSurrogates s := by
  rw [NoSurrogates, List.all_eq_true]
  exact fun c hc => not_isSurrogate_ascii c (h c hc)

/-- A value that is written as JSON: its integers are within the digit limit,
its floats are numbers, and its strings have no surrogates. -/
structure Writable (lim : IntLimit) (v : PyValue) : Prop where
  ints : v.everyScalar (Json.intFits lim) = true
  floats : v.everyScalar floatFinite = true
  strings : v.everyScalar (strAll (!isSurrogate ·)) = true

section Writable

variable {lim : IntLimit}

@[simp] theorem writable_none : Writable lim .none := ⟨rfl, rfl, rfl⟩

@[simp] theorem writable_bool (b : Bool) : Writable lim (.bool b) := ⟨rfl, rfl, rfl⟩

@[simp] theorem writable_int {n : Int} : Writable lim (.int n) ↔ Admits lim n = true :=
  ⟨fun h => h.ints, fun h => ⟨h, rfl, rfl⟩⟩

@[simp] theorem writable_float {x : Binary64} : Writable lim (.float x) ↔ x.isFinite = true :=
  ⟨fun h => h.floats, fun h => ⟨rfl, h, rfl⟩⟩

@[simp] theorem writable_str {s : PyStr} : Writable lim (.str s) ↔ NoSurrogates s :=
  ⟨fun h => h.strings, fun h => ⟨rfl, rfl, h⟩⟩

@[simp] theorem writable_list {items : List PyValue} :
    Writable lim (.list items) ↔ ∀ v ∈ items, Writable lim v := by
  constructor
  · rintro ⟨hints, hfloats, hstrings⟩ v hv
    rw [everyScalar_list, List.all_eq_true] at hints hfloats hstrings
    exact ⟨hints v hv, hfloats v hv, hstrings v hv⟩
  · intro h
    refine ⟨?_, ?_, ?_⟩
    all_goals rw [everyScalar_list, List.all_eq_true]
    · exact fun v hv => (h v hv).ints
    · exact fun v hv => (h v hv).floats
    · exact fun v hv => (h v hv).strings

theorem writable_dict {d : PyDict} :
    Writable lim (.dict d) ↔ ∀ kv ∈ d, Writable lim kv.1 ∧ Writable lim kv.2 := by
  constructor
  · rintro ⟨hints, hfloats, hstrings⟩ kv hkv
    rw [everyScalar_dict, List.all_eq_true] at hints hfloats hstrings
    have hints := Bool.and_eq_true_iff.mp (hints kv hkv)
    have hfloats := Bool.and_eq_true_iff.mp (hfloats kv hkv)
    have hstrings := Bool.and_eq_true_iff.mp (hstrings kv hkv)
    exact ⟨⟨hints.1, hfloats.1, hstrings.1⟩, ⟨hints.2, hfloats.2, hstrings.2⟩⟩
  · intro h
    refine ⟨?_, ?_, ?_⟩
    all_goals rw [everyScalar_dict, List.all_eq_true]
    · exact fun kv hkv => Bool.and_eq_true_iff.mpr ⟨(h kv hkv).1.ints, (h kv hkv).2.ints⟩
    · exact fun kv hkv => Bool.and_eq_true_iff.mpr ⟨(h kv hkv).1.floats, (h kv hkv).2.floats⟩
    · exact fun kv hkv => Bool.and_eq_true_iff.mpr ⟨(h kv hkv).1.strings, (h kv hkv).2.strings⟩

@[simp] theorem writable_ofList {l : List (String × PyValue)} :
    Writable lim (.dict (PyDict.ofList l)) ↔ ∀ kv ∈ l, Writable lim kv.2 := by
  rw [writable_dict, PyDict.ofList, List.forall_mem_map]
  simp

@[simp] theorem writable_object {members : List (PyStr × JsonDoc)} :
    Writable lim (ofDoc (.object members)) ↔
      ∀ m ∈ members, NoSurrogates m.1 ∧ Writable lim (ofDoc m.2) := by
  rw [ofDoc_object, writable_dict, List.forall_mem_map]
  simp

theorem admits_of_lt {n : Int} (h : n.natAbs < 10 ^ 640) : Admits lim n = true := by
  have hlen := length_decimal_le (by omega) h
  have hlim := lim.admitted
  simp only [Admits, Bool.or_eq_true, decide_eq_true_eq]
  omega

theorem admits_small {n : Int} (h : n.natAbs < 10 ^ 9) : Admits lim n = true := by
  apply admits_of_lt
  refine h.trans_le ?_
  apply Nat.pow_le_pow_right
  · decide
  · decide

theorem lt_pow_length_decimal (n : Nat) : n < 10 ^ (decimal n).length := by
  unfold decimal
  split
  · next h0 =>
    subst h0
    decide
  · rw [List.length_map, List.length_reverse]
    exact Nat.lt_base_pow_length_digits (by omega)

/-- A smaller number has no more digits. -/
theorem admits_of_le {m n : Nat} (hle : m ≤ n) (h : Admits lim n = true) : Admits lim m = true := by
  simp only [Admits, Bool.or_eq_true, decide_eq_true_eq, Int.natAbs_natCast] at h ⊢
  rcases h with h | h
  · exact .inl h
  · right
    have hpos : 0 < (decimal n).length := List.length_pos_of_ne_nil (isNumeral_decimal n).1
    exact (length_decimal_le hpos (hle.trans_lt (lt_pow_length_decimal n))).trans h

end Writable

/-- The text is JSON, can be encoded, and is read as the value again. -/
def WrittenAs (lim : IntLimit) (t : PyStr) (v : PyValue) : Prop :=
  (∃ w, Rfc8259 t w ∧ loads lim t = .ok w ∧ Same w v) ∧ NoSurrogates t

/-- The grammar that admits more numerals has more texts. -/
theorem Value.mono {numeral numeral' : PyStr → Prop} (h : ∀ s, numeral s → numeral' s)
    {t : PyStr} {v : PyValue} (hv : Value numeral t v) : Value numeral' t v := by
  induction hv with
  | null => exact .null
  | true => exact .true
  | false => exact .false
  | number hn =>
    refine .number ?_
    cases hn with
    | integer hw hnumeral => exact .integer hw (h _ hnumeral)
    | fraction hw hf => exact .fraction hw hf
    | exponent hw he => exact .exponent hw he
    | both hw hf he => exact .both hw hf he
  | string hs => exact .string hs
  | emptyArray hw => exact .emptyArray hw
  | array hne hspaced _ ih => exact .array hne hspaced ih
  | emptyObject hw => exact .emptyObject hw
  | object hne hspaced hnames _ ih => exact .object hne hspaced hnames ih

/-- **When `json.dumps` writes JSON**, for a document and blanks behind it. -/
theorem dumps_written_iff {lim : IntLimit} {v : PyValue} (hv : Document v) {after : PyStr}
    (hafter : Ws after) :
    (∃ t, dumps lim v = some t ∧ WrittenAs lim (t ++ after) v) ↔ Writable lim v := by
  have hblank : NoSurrogates after := by
    apply noSurrogates_ascii
    intro c hc
    have hws := hafter c hc
    simp only [isWs, Bool.or_eq_true, beq_iff_eq] at hws
    rcases hws with ((rfl | rfl) | rfl) | rfl <;> decide
  constructor
  · intro h
    obtain ⟨t, ht, ⟨w, htext, -, -⟩, hall⟩ := h
    have hprints := Prints.of_dumpAt hv ht
    refine ⟨hprints.intFits, ?_, ?_⟩
    · have hwordless := htext.wordless
      rw [hprints.wordless, Bool.and_eq_true] at hwordless
      exact hwordless.1
    · rw [← hprints.all not_isSurrogate_ascii]
      exact (noSurrogates_append.mp hall).1
  · intro h
    obtain ⟨t, ht⟩ := (dumps_isSome_iff hv).mpr h.ints
    have hprints := Prints.of_dumpAt hv ht
    obtain ⟨w, hvalue, hsame⟩ := hprints.value h.floats
    have htext : Text (Fits lim) (t ++ after) w :=
      ⟨[], t, after, by simp [Ws], hvalue, hafter, rfl⟩
    refine ⟨t, ht, ⟨w, ?_, htext.loads_eq_ok, hsame⟩, ?_⟩
    · exact ⟨[], t, after, by simp [Ws], hvalue.mono fun _ _ => trivial, hafter, rfl⟩
    · exact noSurrogates_append.mpr ⟨(hprints.all not_isSurrogate_ascii).trans h.strings, hblank⟩

end Json

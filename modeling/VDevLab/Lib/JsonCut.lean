import VDevLab.Lib.JsonPrefix

/-!
# Objects that are cut

The scanner of an object stops at its closing brace, whatever follows. So an
object that is cut somewhere either is still whole, with fewer blanks behind
it, or does not load.

Inside of it a number is followed by a blank, a comma or a bracket. With such
a delimiter behind it nothing beyond is looked at.
-/

namespace Json

open PyStr

/-- A character that a number can go on with. -/
def extendsNumber (c : CodePoint) : Bool :=
  isDigit c || c == ch '.' || c == ch 'e' || c == ch 'E'

/-- What is left begins with a character that ends every number. -/
def Stops (rest : PyStr) : Prop := ∃ c tail, rest = c :: tail ∧ extendsNumber c = false

theorem Stops.ne_nil {rest : PyStr} (h : Stops rest) : rest ≠ [] := by
  obtain ⟨c, tail, rfl, -⟩ := h
  exact List.cons_ne_nil c tail

theorem Stops.head_ne {c d : CodePoint} {tail : PyStr} (h : Stops (c :: tail))
    (hd : extendsNumber d = true) : c ≠ d := by
  obtain ⟨c', tail', heq, hc⟩ := h
  cases heq
  rintro rfl
  rw [hc] at hd
  cases hd

theorem isWs_not_extendsNumber {c : CodePoint} (h : isWs c = true) : extendsNumber c = false := by
  simp only [isWs, Bool.or_eq_true, beq_iff_eq] at h
  rcases h with ((rfl | rfl) | rfl) | rfl <;> decide

/-- A delimiter behind blanks stops a number before them. -/
theorem stops_of_skipWs {s rest : PyStr} {d : CodePoint} (h : skipWs s = d :: rest)
    (hd : extendsNumber d = false) : Stops s := by
  cases s with
  | nil => cases h
  | cons c s =>
    refine ⟨c, s, rfl, ?_⟩
    by_cases hc : isWs c = true
    · exact isWs_not_extendsNumber hc
    · rw [skipWs, List.dropWhile_cons_of_neg hc] at h
      cases h
      exact hd

/-! ## Numbers -/

/-- A run that ends inside of a text ends there in a longer one. -/
theorem span_more {α : Type} {p : α → Bool} {s : List α} (h : s.dropWhile p ≠ []) (q : List α) :
    (s ++ q).takeWhile p = s.takeWhile p ∧ (s ++ q).dropWhile p = s.dropWhile p ++ q := by
  induction s with
  | nil => exact absurd rfl h
  | cons c s ih =>
    cases hc : p c with
    | false => simp [hc]
    | true =>
      rw [List.dropWhile_cons_of_pos hc] at h
      obtain ⟨htake, hdrop⟩ := ih h
      simp [hc, htake, hdrop]

section More

variable (q : PyStr)

theorem scanInteger_more {s digits rest : PyStr} (h : scanInteger s = some (digits, rest))
    (hrest : rest ≠ []) : scanInteger (s ++ q) = some (digits, rest ++ q) := by
  cases s with
  | nil => cases h
  | cons c s =>
    rw [List.cons_append]
    simp only [scanInteger] at h ⊢
    split at h
    · next hzero =>
      cases h
      rw [if_pos hzero]
    · next hzero =>
      rw [if_neg hzero]
      split at h
      · next hdigit =>
        simp only [Option.some.injEq, Prod.mk.injEq] at h
        obtain ⟨hdigits, hleft⟩ := h
        obtain ⟨htake, hdrop⟩ := span_more (hleft ▸ hrest) q
        rw [List.cons_append] at htake hdrop
        rw [if_pos hdigit, htake, hdrop, hdigits, hleft]
      · cases h

theorem scanFraction_more {s frac rest : PyStr} (h : scanFraction s = some (frac, rest))
    (hrest : rest ≠ []) : scanFraction (s ++ q) = some (frac, rest ++ q) := by
  cases s with
  | nil => cases h
  | cons c s =>
    rw [List.cons_append]
    simp only [scanFraction] at h ⊢
    split at h
    · next hcond =>
      simp only [Option.some.injEq, Prod.mk.injEq] at h
      obtain ⟨hfrac, hleft⟩ := h
      obtain ⟨htake, hdrop⟩ := span_more (hleft ▸ hrest) q
      rw [htake, hdrop, if_pos hcond, hfrac, hleft]
    · cases h

theorem scanFraction_none {c : CodePoint} (h : c ≠ ch '.') (s : PyStr) :
    scanFraction (c :: s) = none := by
  simp [scanFraction, h]

theorem scanExponent_more {s rest : PyStr} {e : Int} (h : scanExponent s = some (e, rest))
    (hrest : rest ≠ []) : scanExponent (s ++ q) = some (e, rest ++ q) := by
  cases s with
  | nil => cases h
  | cons c s =>
    cases s with
    | nil => simp [scanExponent] at h
    | cons d s =>
      simp only [List.cons_append, scanExponent] at h ⊢
      by_cases hneg : d = ch '-'
      · simp only [if_pos hneg] at h ⊢
        split at h
        · next hcond =>
          simp only [Option.some.injEq, Prod.mk.injEq] at h
          obtain ⟨he, hleft⟩ := h
          obtain ⟨htake, hdrop⟩ := span_more (hleft ▸ hrest) q
          rw [htake, hdrop, if_pos hcond, he, hleft]
        · cases h
      · by_cases hpos : d = ch '+'
        · simp only [if_neg hneg, if_pos hpos] at h ⊢
          split at h
          · next hcond =>
            simp only [Option.some.injEq, Prod.mk.injEq] at h
            obtain ⟨he, hleft⟩ := h
            obtain ⟨htake, hdrop⟩ := span_more (hleft ▸ hrest) q
            rw [htake, hdrop, if_pos hcond, he, hleft]
          · cases h
        · simp only [if_neg hneg, if_neg hpos] at h ⊢
          split at h
          · next hcond =>
            simp only [Option.some.injEq, Prod.mk.injEq] at h
            obtain ⟨he, hleft⟩ := h
            obtain ⟨htake, hdrop⟩ := span_more (s := d :: s) (hleft ▸ hrest) q
            rw [List.cons_append] at htake hdrop
            rw [htake, hdrop, if_pos hcond, he, hleft]
          · cases h

theorem scanExponent_none {c : CodePoint} (hlower : c ≠ ch 'e') (hupper : c ≠ ch 'E') (s : PyStr) :
    scanExponent (c :: s) = none := by
  simp [scanExponent, hlower, hupper]

/-- An exponent begins with its letter. -/
theorem scanExponent_ne_point {s rest : PyStr} {e : Int} (h : scanExponent s = some (e, rest)) :
    ∃ c tail, s = c :: tail ∧ c ≠ ch '.' := by
  cases s with
  | nil => cases h
  | cons c s =>
    refine ⟨c, s, rfl, ?_⟩
    rintro rfl
    rw [scanExponent_none (by decide) (by decide)] at h
    cases h

theorem scanUnsigned_more {lim : IntLimit} {neg : Bool} {s rest : PyStr} {v : PyValue}
    (h : scanUnsigned lim neg s = .ok (v, rest)) (hstop : Stops rest) :
    scanUnsigned lim neg (s ++ q) = .ok (v, rest ++ q) := by
  obtain ⟨c, tail, rfl, hc⟩ := id hstop
  have hpoint : c ≠ ch '.' := hstop.head_ne (by decide)
  have hlower : c ≠ ch 'e' := hstop.head_ne (by decide)
  have hupper : c ≠ ch 'E' := hstop.head_ne (by decide)
  unfold scanUnsigned at h ⊢
  cases hint : scanInteger s with
  | none =>
    rw [hint] at h
    cases h
  | some p =>
    obtain ⟨digits, left⟩ := p
    rw [hint] at h
    simp only at h
    cases hfrac : scanFraction left with
    | none =>
      cases hexp : scanExponent left with
      | none =>
        -- an integer: the delimiter is right behind its digits
        rw [hfrac, hexp] at h
        simp only at h
        split at h
        · cases h
        · next hn =>
          cases h
          rw [scanInteger_more q hint (by simp)]
          simp only [List.cons_append]
          rw [scanFraction_none hpoint, scanExponent_none hlower hupper]
          simp only [hn]
      | some x =>
        obtain ⟨e, left'⟩ := x
        rw [hfrac, hexp] at h
        cases h
        obtain ⟨b, more, rfl, hb⟩ := scanExponent_ne_point hexp
        rw [scanInteger_more q hint (by simp)]
        simp only
        rw [scanExponent_more q hexp (by simp), List.cons_append, scanFraction_none hb]
    | some f =>
      obtain ⟨frac, left'⟩ := f
      rw [hfrac] at h
      simp only at h
      have hleft : left ≠ [] := by
        rintro rfl
        cases hfrac
      rw [scanInteger_more q hint hleft]
      simp only
      cases hexp : scanExponent left' with
      | none =>
        rw [hexp] at h
        cases h
        rw [scanFraction_more q hfrac (by simp)]
        simp only [List.cons_append]
        rw [scanExponent_none hlower hupper]
      | some x =>
        obtain ⟨e, left''⟩ := x
        rw [hexp] at h
        cases h
        have hleft' : left' ≠ [] := by
          rintro rfl
          cases hexp
        rw [scanFraction_more q hfrac hleft']
        simp only
        rw [scanExponent_more q hexp (by simp)]

theorem scanNumber_more {lim : IntLimit} {s rest : PyStr} {v : PyValue}
    (h : scanNumber lim s = .ok (v, rest)) (hstop : Stops rest) :
    scanNumber lim (s ++ q) = .ok (v, rest ++ q) := by
  cases s with
  | nil => cases h
  | cons c s =>
    rw [List.cons_append]
    simp only [scanNumber] at h ⊢
    split at h
    · next hminus =>
      rw [if_pos hminus]
      exact scanUnsigned_more q h hstop
    · next hminus =>
      rw [if_neg hminus]
      exact scanUnsigned_more q h hstop

/-! ## Words -/

theorem literal_eq_some {word s rest : PyStr} (h : literal word s = some rest) :
    s = word ++ rest := by
  unfold literal at h
  split at h
  · next hprefix =>
    cases h
    obtain ⟨tail, rfl⟩ := List.isPrefixOf_iff_prefix.mp hprefix
    rw [List.drop_left]
  · cases h

theorem scanLiteral_more {s rest : PyStr} {v : PyValue} (h : scanLiteral s = some (v, rest)) :
    scanLiteral (s ++ q) = some (v, rest ++ q) := by
  simp only [scanLiteral, Option.or_eq_some_iff, Option.map_eq_some_iff, Prod.mk.injEq] at h
  rcases h with ⟨_, hl, rfl, rfl⟩ | ⟨-, ⟨_, hl, rfl, rfl⟩ | ⟨-, ⟨_, hl, rfl, rfl⟩ | ⟨-,
    ⟨_, hl, rfl, rfl⟩ | ⟨-, ⟨_, hl, rfl, rfl⟩ | ⟨-, _, hl, rfl, rfl⟩⟩⟩⟩⟩ <;>
  · rw [literal_eq_some hl]
    rfl

/-- The first character of a number, and the second behind a sign. -/
theorem scanUnsigned_digit {lim : IntLimit} {neg : Bool} {s rest : PyStr} {v : PyValue}
    (h : scanUnsigned lim neg s = .ok (v, rest)) :
    ∃ c tail, s = c :: tail ∧ isDigit c = true := by
  unfold scanUnsigned at h
  cases s with
  | nil => cases h
  | cons c s =>
    refine ⟨c, s, rfl, ?_⟩
    by_cases hzero : c = digit 0
    · rw [hzero]
      decide
    · by_contra hdigit
      rw [scanInteger, if_neg hzero, if_neg hdigit] at h
      cases h

/-- Where a number stands, no word begins, however the text goes on. -/
theorem scanLiteral_number {lim : IntLimit} {s rest : PyStr} {v : PyValue}
    (h : scanNumber lim s = .ok (v, rest)) : scanLiteral (s ++ q) = none := by
  cases s with
  | nil => cases h
  | cons c s =>
    simp only [scanNumber] at h
    split at h
    · next hminus =>
      obtain ⟨d, tail, rfl, hd⟩ := scanUnsigned_digit h
      rw [hminus]
      exact scanLiteral_minus hd (tail ++ q)
    · obtain ⟨d, tail, heq, hd⟩ := scanUnsigned_digit h
      cases heq
      exact scanLiteral_digit hd (s ++ q)

/-! ## Values -/

theorem skipWs_more {s rest : PyStr} {d : CodePoint} (h : skipWs s = d :: rest) :
    skipWs (s ++ q) = d :: (rest ++ q) := by
  rw [skipWs] at h
  have hne : s.dropWhile isWs ≠ [] := by
    rw [h]
    exact List.cons_ne_nil d rest
  rw [skipWs, (span_more hne q).2, h]
  rfl

theorem scanKey_more {s key rest : PyStr} (h : scanKey s = .ok (key, rest))
    (hrest : rest ≠ []) : scanKey (s ++ q) = .ok (key, rest ++ q) := by
  cases s with
  | nil => cases h
  | cons c s =>
    rw [List.cons_append]
    simp only [scanKey] at h ⊢
    split at h
    · cases h
    · next hquote =>
      rw [if_neg hquote]
      split at h
      · cases h
      · next key' rest' hs =>
        rw [scanString_append hs q (by simp)]
        simp only
        split at h
        · cases h
        · next d tail hskip =>
          rw [skipWs_more q hskip]
          simp only
          split at h
          · next hcolon =>
            cases h
            obtain ⟨e, more, hmore⟩ := List.exists_cons_of_ne_nil hrest
            rw [if_pos hcolon, skipWs_more q hmore, hmore]
            rfl
          · cases h

/-- What the scanners have read they read in a longer text too. A value that
may be a number needs a delimiter behind it. -/
theorem scan_more {lim : IntLimit} (fuel : Nat) :
    (∀ {s rest v fuel'}, fuel ≤ fuel' → scanOnce lim fuel s = .ok (v, rest) →
      (Stops rest ∨ s.head? = some (ch '\x7b')) →
      scanOnce lim fuel' (s ++ q) = .ok (v, rest ++ q)) ∧
    (∀ {s rest acc v fuel'}, fuel ≤ fuel' → scanElements lim fuel s acc = .ok (v, rest) →
      scanElements lim fuel' (s ++ q) acc = .ok (v, rest ++ q)) ∧
    (∀ {s rest acc v fuel'}, fuel ≤ fuel' → scanMembers lim fuel s acc = .ok (v, rest) →
      scanMembers lim fuel' (s ++ q) acc = .ok (v, rest ++ q)) := by
  induction fuel with
  | zero => simp [scanOnce, scanElements, scanMembers]
  | succ fuel ih =>
    obtain ⟨ihOnce, ihElements, ihMembers⟩ := ih
    refine ⟨?_, ?_, ?_⟩
    · intro s rest v fuel' hfuel h hstop
      obtain ⟨fuel', rfl⟩ : ∃ f, fuel' = f + 1 := ⟨fuel' - 1, by omega⟩
      cases s with
      | nil => cases h
      | cons c s =>
        rw [List.cons_append]
        simp only [scanOnce] at h ⊢
        split at h
        · next hquote =>
          obtain ⟨p, hp, hpv⟩ := Check.map_eq_ok h
          cases hpv
          rw [if_pos hquote, scanString_append hp q (by simp)]
          rfl
        · next hquote =>
          rw [if_neg hquote]
          split at h
          · next hbrace =>
            rw [if_pos hbrace]
            split at h
            · next d tail hskip =>
              rw [skipWs_more q hskip]
              simp only
              split at h
              · next hclose =>
                cases h
                rw [if_pos hclose]
              · next hclose =>
                rw [if_neg hclose]
                exact ihMembers (by omega) h
            · cases h
          · next hbrace =>
            rw [if_neg hbrace]
            split at h
            · next hbracket =>
              rw [if_pos hbracket]
              split at h
              · next d tail hskip =>
                rw [skipWs_more q hskip]
                simp only
                split at h
                · next hclose =>
                  cases h
                  rw [if_pos hclose]
                · next hclose =>
                  rw [if_neg hclose]
                  exact ihElements (by omega) h
              · cases h
            · next hbracket =>
              rw [if_neg hbracket, ← List.cons_append]
              split at h
              · next p hp =>
                cases h
                rw [scanLiteral_more q hp]
              · have hstop' : Stops rest := hstop.resolve_right fun hhead =>
                  hbrace (Option.some.inj hhead)
                rw [scanLiteral_number q h]
                exact scanNumber_more q h hstop'
    · intro s rest acc v fuel' hfuel h
      obtain ⟨fuel', rfl⟩ : ∃ f, fuel' = f + 1 := ⟨fuel' - 1, by omega⟩
      simp only [scanElements] at h ⊢
      split at h
      · cases h
      · next w tail hw =>
        split at h
        · cases h
        · next d more hskip =>
          split at h
          · next hclose =>
            cases h
            rw [ihOnce (by omega) hw (.inl (stops_of_skipWs hskip (hclose ▸ by decide)))]
            simp only
            rw [skipWs_more q hskip]
            simp only
            rw [if_pos hclose]
          · next hclose =>
            split at h
            · next hcomma =>
              rw [ihOnce (by omega) hw (.inl (stops_of_skipWs hskip (hcomma ▸ by decide)))]
              simp only
              rw [skipWs_more q hskip]
              simp only
              rw [if_neg hclose, if_pos hcomma]
              cases hmore : skipWs more with
              | nil =>
                rw [hmore, scanElements_nil] at h
                cases h
              | cons e tail =>
                rw [hmore] at h
                rw [skipWs_more q hmore]
                exact ihElements (by omega) h
            · cases h
    · intro s rest acc v fuel' hfuel h
      obtain ⟨fuel', rfl⟩ : ∃ f, fuel' = f + 1 := ⟨fuel' - 1, by omega⟩
      simp only [scanMembers] at h ⊢
      split at h
      · cases h
      · next key tail hkey =>
        split at h
        · cases h
        · next w tail' hw =>
          have hne : tail ≠ [] := by
            rintro rfl
            rw [scanOnce_nil] at hw
            cases hw
          rw [scanKey_more q hkey hne]
          simp only
          split at h
          · cases h
          · next d more hskip =>
            split at h
            · next hclose =>
              cases h
              rw [ihOnce (by omega) hw (.inl (stops_of_skipWs hskip (hclose ▸ by decide)))]
              simp only
              rw [skipWs_more q hskip]
              simp only
              rw [if_pos hclose]
            · next hclose =>
              split at h
              · next hcomma =>
                rw [ihOnce (by omega) hw (.inl (stops_of_skipWs hskip (hcomma ▸ by decide)))]
                simp only
                rw [skipWs_more q hskip]
                simp only
                rw [if_neg hclose, if_pos hcomma]
                cases hmore : skipWs more with
                | nil =>
                  rw [hmore, scanMembers_nil] at h
                  cases h
                | cons e tail =>
                  rw [hmore] at h
                  rw [skipWs_more q hmore]
                  exact ihMembers (by omega) h
              · cases h

end More

/-! ## Objects -/

theorem scanUnsigned_ne_dict {lim : IntLimit} {neg : Bool} {s rest : PyStr} {d : PyDict} :
    scanUnsigned lim neg s ≠ .ok (.dict d, rest) := by
  intro h
  unfold scanUnsigned at h
  split at h
  · cases h
  · split at h
    · split at h <;> cases h
    · cases h
    · split at h <;> cases h

theorem scanLiteral_ne_dict {s rest : PyStr} {d : PyDict} :
    scanLiteral s ≠ some (.dict d, rest) := by
  simp [scanLiteral, Option.or_eq_some_iff]

theorem scanElements_ne_dict {lim : IntLimit} (fuel : Nat) {s rest : PyStr}
    {acc : List PyValue} {d : PyDict} : scanElements lim fuel s acc ≠ .ok (.dict d, rest) := by
  induction fuel generalizing s acc with
  | zero => simp [scanElements]
  | succ fuel ih =>
    intro h
    simp only [scanElements] at h
    split at h
    · cases h
    · split at h
      · cases h
      · split at h
        · cases h
        · split at h
          · exact ih h
          · cases h

/-- An object begins with its brace. -/
theorem scanOnce_dict {lim : IntLimit} {fuel : Nat} {c : CodePoint} {s rest : PyStr} {d : PyDict}
    (h : scanOnce lim fuel (c :: s) = .ok (.dict d, rest)) : c = ch '\x7b' := by
  by_contra hbrace
  cases fuel with
  | zero => cases h
  | succ fuel =>
    simp only [scanOnce] at h
    rw [if_neg hbrace] at h
    split at h
    · obtain ⟨p, -, hp⟩ := Check.map_eq_ok h
      cases hp
    · split at h
      · split at h
        · split at h
          · cases h
          · exact scanElements_ne_dict fuel h
        · cases h
      · split at h
        · next p hp =>
          cases h
          exact scanLiteral_ne_dict hp
        · simp only [scanNumber] at h
          split at h <;> exact scanUnsigned_ne_dict h

/-- The beginning of an object's text loads as the object or not at all. -/
theorem loads_cut {lim : IntLimit} {s q : PyStr} {d : PyDict} {v : PyValue}
    (hwhole : loads lim (s ++ q) = .ok (.dict d)) (hcut : loads lim s = .ok v) : v = .dict d := by
  unfold loads at hwhole hcut
  split at hcut
  · cases hcut
  · split at hcut
    · cases hcut
    · next w rest hscan =>
      split at hcut
      · cases hcut
        split at hwhole
        · cases hwhole
        · split at hwhole
          · cases hwhole
          · next w' rest' hscan' =>
            split at hwhole
            · cases hwhole
              cases hskip : skipWs s with
              | nil =>
                rw [hskip, scanOnce_nil] at hscan
                cases hscan
              | cons c tail =>
                rw [hskip] at hscan
                rw [skipWs_more q hskip] at hscan'
                have hbrace : c = ch '\x7b' := scanOnce_dict hscan'
                have hlen : s.length ≤ (s ++ q).length := by simp
                have hmore := (scan_more q s.length).1 hlen hscan (.inr (by rw [hbrace]; rfl))
                rw [List.cons_append, hscan'] at hmore
                cases hmore
                rfl
            · cases hwhole
      · cases hcut

end Json

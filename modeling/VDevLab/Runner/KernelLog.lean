import VDevLab.Lib.Overlap
import VDevLab.Runner.Run

/-!
# `DmesgKernelLogCollector`

The collector reads `dmesg` before and after a scenario and takes the longest
end of the old log that is a start of the new one for what was there before.
The kernel keeps a ring: between the two reads it may have dropped the oldest
lines. What the collector then reports is always new, but with repeated lines
it can take new ones for old.

What the command returned is a parameter.
-/

namespace VDevLab.Runner

open PyStr PySeq

/-! ## The collector -/

/-- How `subprocess.run` of `dmesg` ends. -/
inductive CommandOutcome
  | osError (message : PyStr)
  | completed (returncode : Int) (stdout stderr : PyStr)

/-- `s.strip()`. -/
def strip (s : PyStr) : PyStr := ((s.dropWhile isSpace).reverse.dropWhile isSpace).reverse

/-- `_read`. -/
def readKernelLog : CommandOutcome → KernelLogSnapshot
  | .osError message => { lines := [], error := some message }
  | .completed returncode stdout stderr =>
      if returncode ≠ 0 then
        { lines := []
          error := some (if strip stderr ≠ [] then strip stderr
            else py "dmesg exited with " ++ integer returncode) }
      else { lines := splitlines stdout }

/-- `snapshot`. -/
def snapshotKernelLog (command : CommandOutcome) : KernelLogSnapshot := readKernelLog command

/-- The loop of `observe`: `while overlap and before.lines[-overlap:] !=
after.lines[:overlap]`. -/
def overlapOf (before after : List PyStr) : Nat :=
  searchDown (fun k => sliceFrom before (-(k : Int)) = sliceTo after k)
    (min before.length after.length)

/-- `observe`. -/
def observeKernelLog (command : CommandOutcome) (before : KernelLogSnapshot) :
    KernelLogObservation :=
  match before.error with
  | some error => { available := false, warnings := [], error := some error }
  | none =>
      let after := readKernelLog command
      match after.error with
      | some error => { available := false, warnings := [], error := some error }
      | none =>
          { available := true
            warnings := sliceFrom after.lines (overlapOf before.lines after.lines) }

theorem readKernelLog_completed {stdout : PyStr} {lines : List PyStr}
    (h : splitlines stdout = lines) (stderr : PyStr) :
    readKernelLog (.completed 0 stdout stderr) = { lines } := by
  rw [readKernelLog, if_neg (by decide), h]

/-! ## The loop -/

theorem overlapTest_iff {before after : List PyStr} {k : Nat} (h0 : k ≠ 0)
    (hk : k ≤ min before.length after.length) :
    decide (sliceFrom before (-(k : Int)) = sliceTo after k) = true ↔ Overlaps before after k := by
  rw [decide_eq_true_eq, sliceFrom_neg before h0, sliceTo_natCast]
  constructor
  · intro heq
    exact ⟨by omega, by omega, heq⟩
  · intro h
    exact h.eq

/-- The loop stops at the longest overlap. -/
theorem overlapOf_isGreatest (before after : List PyStr) :
    IsGreatest {k | Overlaps before after k} (overlapOf before after) := by
  have hle : overlapOf before after ≤ min before.length after.length := searchDown_le _ _
  constructor
  · show Overlaps before after (overlapOf before after)
    by_cases h0 : overlapOf before after = 0
    · rw [h0]
      exact overlaps_zero before after
    · rcases searchDown_spec (fun k => decide (sliceFrom before (-(k : Int)) = sliceTo after k))
          (min before.length after.length) with hzero | hp
      · exact absurd hzero h0
      · exact (overlapTest_iff h0 hle).mp hp
  · intro k hk
    have hk : Overlaps before after k := hk
    by_cases h0 : k = 0
    · omega
    · have hkle : k ≤ min before.length after.length := by
        have := hk.le_before
        have := hk.le_after
        omega
      exact le_searchDown hkle ((overlapTest_iff h0 hkle).mpr hk)

/-! ## A log that rotated -/

section Rotated

variable {command : CommandOutcome} {before : KernelLogSnapshot} {d : Nat} {new : List PyStr}

/-- What is reported of a log that dropped `d` lines and gained new ones. -/
theorem observe_rotated (hbefore : before.error = none) (hd : d ≤ before.lines.length)
    (hafter : readKernelLog command = { lines := before.lines.drop d ++ new }) :
    ∃ j, overlapOf before.lines (before.lines.drop d ++ new) = before.lines.length - d + j ∧
      observeKernelLog command before = { available := true, warnings := new.drop j } := by
  have hgreatest := overlapOf_isGreatest before.lines (before.lines.drop d ++ new)
  have hkept : before.lines.length - d ≤ overlapOf before.lines (before.lines.drop d ++ new) :=
    hgreatest.2 (overlaps_kept hd)
  obtain ⟨j, hj⟩ := Nat.exists_eq_add_of_le hkept
  refine ⟨j, hj, ?_⟩
  simp only [observeKernelLog, hbefore, hafter, sliceFrom_natCast, hj, drop_rotated]

/-- **Old warnings are never blamed on the scenario.** The loop stops at the
longest overlap, what is reported is an end of what is new, and without
rotation it is all of it. -/
theorem old_warnings_not_reported (hbefore : before.error = none) (hd : d ≤ before.lines.length)
    (hafter : readKernelLog command = { lines := before.lines.drop d ++ new }) :
    IsGreatest {k | Overlaps before.lines (before.lines.drop d ++ new) k}
      (overlapOf before.lines (before.lines.drop d ++ new)) ∧
    (observeKernelLog command before).available = true ∧
    (observeKernelLog command before).warnings <:+ new ∧
    (d = 0 → (observeKernelLog command before).warnings = new) := by
  have hgreatest := overlapOf_isGreatest before.lines (before.lines.drop d ++ new)
  obtain ⟨j, hj, hobserve⟩ := observe_rotated hbefore hd hafter
  refine ⟨hgreatest, by rw [hobserve], by rw [hobserve]; exact List.drop_suffix j new, ?_⟩
  intro h0
  -- the overlap cannot exceed the old log, all of which was kept
  have hle := hgreatest.1.le_before
  have hj0 : j = 0 := by omega
  rw [hobserve, hj0]
  rfl

/-- The oldest line of three was dropped, and a line was appended. -/
theorem old_warnings_not_reported_rotated :
    readKernelLog (.completed 0 (py "two\nthree\nfour\n") []) =
      { lines := [py "one", py "two", py "three"].drop 1 ++ [py "four"] } ∧
    (observeKernelLog (.completed 0 (py "two\nthree\nfour\n") [])
      { lines := [py "one", py "two", py "three"] }).warnings <:+ [py "four"] := by
  have hread : readKernelLog (.completed 0 (py "two\nthree\nfour\n") []) =
      { lines := [py "one", py "two", py "three"].drop 1 ++ [py "four"] } :=
    readKernelLog_completed (by decide +kernel) []
  exact ⟨hread, (old_warnings_not_reported rfl (d := 1) (by decide) hread).2.2.1⟩

/-- The log kept its last lines and, with `j` new ones behind them, shows a
longer end of the old log again. -/
def Repeats (before new : List PyStr) (d : Nat) : Prop :=
  ∃ j, 1 ≤ j ∧ j ≤ d ∧ j ≤ new.length ∧ before.drop (d - j) = before.drop d ++ new.take j

/-- **New warnings are reported** exactly when the kept and the new lines do
not repeat a longer end of the old log. -/
theorem new_warnings_reported_iff (hbefore : before.error = none) (hd : d ≤ before.lines.length)
    (hafter : readKernelLog command = { lines := before.lines.drop d ++ new }) :
    (new <:+ (observeKernelLog command before).warnings ∧
      new.length ≤ (observeKernelLog command before).warnings.length) ↔
    ¬ Repeats before.lines new d := by
  have hgreatest := overlapOf_isGreatest before.lines (before.lines.drop d ++ new)
  obtain ⟨j, hj, hobserve⟩ := observe_rotated hbefore hd hafter
  rw [hobserve]
  have hoverlap : Overlaps before.lines (before.lines.drop d ++ new) (before.lines.length - d + j) :=
    hj ▸ hgreatest.1
  obtain ⟨hjd, hjn, hrepeat⟩ := (overlaps_rotated hd).mp hoverlap
  constructor
  · intro h hrepeats
    -- all of `new` is reported, so the longest overlap ends where the kept lines end
    obtain ⟨i, hi1, hid, hin, heq⟩ := hrepeats
    have hlength : new.length ≤ (new.drop j).length := h.2
    rw [List.length_drop] at hlength
    have hi := hgreatest.2 ((overlaps_rotated hd).mpr ⟨hid, hin, heq⟩)
    omega
  · intro hnot
    have hj0 : j = 0 := by
      by_contra hne
      exact hnot ⟨j, by omega, hjd, hjn, hrepeat⟩
    rw [hj0]
    exact ⟨List.suffix_refl _, Nat.le_refl _⟩

end Rotated

/-- The same rotation: the lines are distinct, so the new one is reported. -/
theorem new_warnings_reported_distinct :
    ¬ Repeats [py "one", py "two", py "three"] [py "four"] 1 ∧
    [py "four"] <:+ (observeKernelLog (.completed 0 (py "two\nthree\nfour\n") [])
      { lines := [py "one", py "two", py "three"] }).warnings := by
  have hnot : ¬ Repeats [py "one", py "two", py "three"] [py "four"] 1 := by
    intro h
    obtain ⟨j, hj1, hjd, -, heq⟩ := h
    have hj : j = 1 := by omega
    subst hj
    exact absurd heq (by decide)
  have hread : readKernelLog (.completed 0 (py "two\nthree\nfour\n") []) =
      { lines := [py "one", py "two", py "three"].drop 1 ++ [py "four"] } :=
    readKernelLog_completed (by decide +kernel) []
  exact ⟨hnot, ((new_warnings_reported_iff rfl (d := 1) (by decide) hread).mpr hnot).1⟩

/-- A log that holds one warning twice drops the first and gains a third: the
new one is taken for an old one. -/
theorem repeated_warning_missed :
    readKernelLog (.completed 0 (py "w\nw\n") []) =
      { lines := [py "w", py "w"].drop 1 ++ [py "w"] } ∧
    (observeKernelLog (.completed 0 (py "w\nw\n") []) { lines := [py "w", py "w"] }).warnings = [] ∧
    ¬ ([py "w"] <:+ (observeKernelLog (.completed 0 (py "w\nw\n") [])
        { lines := [py "w", py "w"] }).warnings ∧
      [py "w"].length ≤ (observeKernelLog (.completed 0 (py "w\nw\n") [])
        { lines := [py "w", py "w"] }).warnings.length) := by
  have hnone : (observeKernelLog (.completed 0 (py "w\nw\n") [])
      { lines := [py "w", py "w"] }).warnings = [] := by decide +kernel
  refine ⟨readKernelLog_completed (by decide +kernel) [], hnone, ?_⟩
  rw [hnone]
  decide

end VDevLab.Runner

import VDevLab.Lib.PyPath
import VDevLab.Scenario.Reject

/-!
# `load_scenario`

A scenario file is read, decoded and parsed. A file that cannot be read is a
`ScenarioError` like a document that is not of the schema; a file that cannot
be decoded is not, nor is a scalar or a numeral that cannot be converted.
-/

namespace VDevLab

open Check PyStr

/-- How `read_text` finds the file: what is in it, or an `OSError` and its
`strerror`, if it has one. -/
inductive ReadOutcome
  | content (bytes : List UInt8)
  | osError (strerror : Option PyStr)

/-- What leaves `load_scenario` instead of a definition. -/
inductive LoadFailure
  | parse (failure : ParseFailure)
  | unicodeDecodeError

def LoadFailure.Improper (kind : Foreign) : LoadFailure → Prop
  | .parse failure => failure.Improper kind
  | .unicodeDecodeError => True

/-- `bytes.decode("utf-8")`. -/
def decodeUtf8 (bytes : List UInt8) : Option PyStr :=
  (ByteArray.mk bytes.toArray).utf8Decode?.map fun chars => chars.toList.map CodePoint.ofChar

namespace Scenario

/-- `error.strerror or "cannot read file"`. -/
def readMessage : Option PyStr → PyStr
  | some (c :: s) => c :: s
  | _ => py "cannot read file"

section Load

variable (safeLoad : PyStr → Except LoadError PyValue) (lim : IntLimit)

/-- `load_scenario`. -/
def loadScenario (path : PyStr) : ReadOutcome → Except LoadFailure ScenarioDefinition
  | .osError strerror =>
      .error (.parse (.scenarioError (PyPath.str path) (readMessage strerror)))
  | .content bytes =>
      match decodeUtf8 bytes with
      | none => .error .unicodeDecodeError
      | some text =>
          (parseScenario safeLoad lim (normalizeLines false text) (PyPath.str path)).mapError .parse

/-- The document in a file. -/
def Holds (outcome : ReadOutcome) (doc : PyValue) : Prop :=
  ∃ bytes text, outcome = .content bytes ∧ decodeUtf8 bytes = some text ∧
    safeLoad (normalizeLines false text) = .ok doc

/-- Nothing in the file gets in the way: it can be decoded, YAML has a value
or an error of its own for it, and a document has no snag. Of a file that
cannot be read the path and the cause go into the message. -/
def Orderly (kind : Foreign) (path : PyStr) : ReadOutcome → Prop
  | .osError strerror => kind.Clean path ∧ ∀ s ∈ strerror, kind.Clean s
  | .content bytes => ∃ text, decodeUtf8 bytes = some text ∧
      safeLoad (normalizeLines false text) ≠ .error .valueError ∧
      ∀ doc, safeLoad (normalizeLines false text) = .ok doc → ¬ Snag kind lim doc

end Load

section Outcomes

variable {safeLoad : PyStr → Except LoadError PyValue} {lim : IntLimit} {kind : Foreign}
  {path : PyStr}

/-- Taking a path apart loses slashes and dots only. -/
theorem clean_str : kind.Clean (PyPath.str path) ↔ kind.Clean path := by
  have hparts : kind.Clean (join (py "/") (PyPath.parts path)) ↔ kind.Clean path := by
    conv_rhs => rw [← PyPath.join_splitOn path]
    rw [Foreign.clean_join (Foreign.clean_py "/"), Foreign.clean_join (Foreign.clean_py "/")]
    constructor
    · intro h s hs
      by_cases hdot : s ≠ [] ∧ s ≠ py "."
      · exact h s (List.mem_filter.mpr ⟨hs, decide_eq_true hdot⟩)
      · by_cases hnil : s = []
        · rw [hnil]
          rfl
        · have hs : s = py "." := not_not.mp fun hne => hdot ⟨hnil, hne⟩
          rw [hs]
          exact Foreign.clean_py _
    · exact fun h s hs => h s (List.mem_of_mem_filter hs)
  have hroot : kind.Clean (PyPath.root path) := by
    rw [Foreign.Clean, List.any_eq_false]
    intro c hc
    rw [PyPath.mem_root hc, kind.not_char]
    exact Bool.false_ne_true
  by_cases hnil : PyPath.root path ++ join (py "/") (PyPath.parts path) = []
  · rw [PyPath.str, if_pos hnil, ← hparts, (List.append_eq_nil_iff.mp hnil).2]
    exact iff_of_true (Foreign.clean_py _) rfl
  · rw [PyPath.str, if_neg hnil, Foreign.clean_append, hparts]
    exact and_iff_right hroot

theorem clean_readMessage {strerror : Option PyStr} :
    kind.Clean (readMessage strerror) ↔ ∀ s ∈ strerror, kind.Clean s := by
  cases strerror with
  | none => simp [readMessage]
  | some s =>
    cases s with
    | nil =>
      refine iff_of_true (Foreign.clean_py _) ?_
      rintro s ⟨⟩
      rfl
    | cons c s => simp [readMessage]

theorem raises_mapError {x : Parse ScenarioDefinition} :
    Raises (LoadFailure.Improper kind) (x.mapError .parse) ↔
      Raises (ParseFailure.Improper kind) x := by
  cases x with
  | error e => simp [Except.mapError, LoadFailure.Improper]
  | ok sd => simp [Except.mapError]

theorem raises_parseScenario {text source : PyStr} :
    Raises (ParseFailure.Improper kind) (parseScenario safeLoad lim text source) ↔
      safeLoad text = .error .valueError ∨ ∃ doc, safeLoad text = .ok doc ∧ Snag kind lim doc := by
  unfold parseScenario
  cases hload : safeLoad text with
  | error e =>
    cases e with
    | yamlError => simpa using not_improper (Foreign.clean_py "$") (Foreign.clean_py "invalid YAML")
    | valueError => simp [ParseFailure.Improper]
  | ok doc => simp [raises_parseDocument]

/-- **What leaves `load_scenario`** and is no proper error. -/
theorem raises_loadScenario {outcome : ReadOutcome} :
    Raises (LoadFailure.Improper kind) (loadScenario safeLoad lim path outcome) ↔
      ¬ Orderly safeLoad lim kind path outcome := by
  cases outcome with
  | osError strerror =>
    rw [loadScenario, raises_error, LoadFailure.Improper, ParseFailure.Improper, clean_str,
      clean_readMessage]
    rfl
  | content bytes =>
    rw [loadScenario, Orderly]
    cases htext : decodeUtf8 bytes with
    | none => simp [LoadFailure.Improper]
    | some text =>
      simp only [raises_mapError, raises_parseScenario, Option.some.injEq, exists_eq_left']
      rw [not_and_or, not_not, not_forall]
      simp only [Classical.not_imp, not_not]

/-- A file is loaded iff it holds a scenario. -/
theorem loadScenario_eq_ok {outcome : ReadOutcome} {sd : ScenarioDefinition} :
    loadScenario safeLoad lim path outcome = .ok sd ↔
      ∃ doc sc, Holds safeLoad outcome doc ∧ Describes doc sc ∧
        sd = sc.definition (PyPath.str path) := by
  have hmap : ∀ {x : Parse ScenarioDefinition},
      x.mapError LoadFailure.parse = .ok sd ↔ x = .ok sd := by
    intro x
    cases x <;> simp [Except.mapError]
  cases outcome with
  | osError strerror => simp [loadScenario, Holds]
  | content bytes =>
    cases htext : decodeUtf8 bytes with
    | none => simp [loadScenario, Holds, htext]
    | some text =>
      have hholds : ∀ doc, Holds safeLoad (.content bytes) doc ↔
          safeLoad (normalizeLines false text) = .ok doc := by
        intro doc
        constructor
        · intro h
          obtain ⟨_, t, ⟨⟩, ht, hload⟩ := h
          cases htext.symm.trans ht
          exact hload
        · exact fun hload => ⟨bytes, text, rfl, htext, hload⟩
      simp only [loadScenario, htext, hmap, hholds, parseScenario]
      cases hload : safeLoad (normalizeLines false text) with
      | error e => cases e <;> simp
      | ok doc => simp [parseDocument_eq_ok]

end Outcomes

end Scenario

end VDevLab

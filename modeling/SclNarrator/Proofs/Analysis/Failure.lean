import SclNarrator.Proofs.Analysis.Outcome
import SclNarrator.Proofs.Number.Double
import SclNarrator.Proofs.Number.Numeral
import SclNarrator.Proofs.Run.Seeding

/-!
When an analysis gives no report. Faults of the code, of the data and of the run are reported.

What is proved: what remains is a tag that is taken up and whose text cannot be decoded, and a result
of more digits than can be written. An analysis fails if and only if there is one of the two
(`Session.analyze_fails_iff`).

Correspondence (analyzer ↔ here):
  `LocalEnvironment.from_snapshot`, outside of every handler ↔ `Snapshot.Seeds` and `Value.decode`
  `build_narrative`, outside of every handler                ↔ the limit of 4300 digits
-/

namespace SclNarrator

theorem Double.natAbs_signed (negative : Bool) (n : Nat) : (signed negative n).natAbs = n := by
  cases negative <;> simp [signed]

theorem two_pow_le_ten_pow {k limit : Nat} (h : k ≤ limit) : 2 ^ k ≤ 10 ^ limit :=
  calc 2 ^ k ≤ 2 ^ limit := Nat.pow_le_pow_right (by omega) h
    _ ≤ 10 ^ limit := Nat.pow_le_pow_left (by omega) limit

/-- The whole part of a double is never too long to be written. -/
theorem Double.fits_of_trunc? {x : Float} {n : Int} (h : trunc? x = some n) :
    Numeral.fits n = true := by
  unfold trunc? at h
  split at h
  · next negative units finite =>
    obtain ⟨m, k, size, small, -⟩ := bits_of_view finite
    have power : one = 2 ^ 1074 := by
      unfold one
      generalize 1074 = exponent
      exact Nat.pow_eq
    have bound : units < one * 2 ^ 1024 := by
      rw [power, ← Nat.pow_add, size.eq]
      calc m * 2 ^ k < 2 ^ 53 * 2 ^ k := Nat.mul_lt_mul_of_pos_right size.lt (Nat.two_pow_pos k)
        _ = 2 ^ (53 + k) := (Nat.pow_add ..).symm
        _ ≤ 2 ^ (1074 + 1024) := Nat.pow_le_pow_right (by omega) (by omega)
    rw [Numeral.fits_iff, ← Option.some_inj.mp h, natAbs_signed]
    calc units / one < 2 ^ 1024 := Nat.div_lt_of_lt_mul bound
      _ ≤ 10 ^ Numeral.digitLimit := two_pow_le_ten_pow (by decide)
  · cases h

theorem Value.intText_fails_iff {n : Int} :
    (∃ fault, intText n = .error fault) ↔ 10 ^ Numeral.digitLimit ≤ n.natAbs := by
  unfold intText
  rw [← Nat.not_lt, ← Numeral.fits_iff]
  split
  · next short => simp [short]
  · next long => simp [long]

/-- A value cannot be shown if and only if it is a whole number that is too long to be written. -/
theorem Value.shown_fails_iff (places : Nat) (v : Value) :
    (∃ fault, v.shown places = .error fault) ↔
      ∃ n, v = .int n ∧ 10 ^ Numeral.digitLimit ≤ n.natAbs := by
  cases v with
  | int n =>
    rw [shown, intText_fails_iff]
    simp
  | float x =>
    have told : ∃ t, shown places (.float x) = .ok t := by
      rw [shown]
      split
      · exact ⟨_, rfl⟩
      · exact ⟨_, rfl⟩
      · split
        · next n whole =>
          split
          · exact ⟨Numeral.text n, if_pos (Double.fits_of_trunc? whole)⟩
          · exact ⟨_, rfl⟩
        · exact ⟨_, rfl⟩
    obtain ⟨t, told⟩ := told
    simp [told]
  | none => simp [shown]
  | bool b => simp [shown]
  | text t => simp [shown]
  | complex z => simp [shown]

theorem Report.resultLine_fails_iff (places : Nat) (b : Binding) :
    (∃ fault, resultLine places b = .error fault) ↔ ∃ fault, b.value.shown places = .error fault := by
  unfold resultLine
  cases b.value.shown places with
  | ok t => simp [pure, Except.pure]
  | error fault => simp

/-- A run cannot be narrated if and only if one of its results is too long to be written. -/
theorem Run.narrative_fails_iff (run : Run) :
    (∃ fault, run.narrative = .error fault) ↔
      ∃ b ∈ run.env.computed, ∃ n, b.value = .int n ∧ 10 ^ Numeral.digitLimit ≤ n.natAbs := by
  have lines : (∃ fault, run.narrative = .error fault) ↔
      ∃ fault, run.env.computed.mapM (Report.resultLine run.places) = .error fault := by
    unfold Run.narrative Report.narrative
    cases run.env.computed.mapM (Report.resultLine run.places) with
    | ok results => simp [pure, Except.pure]
    | error fault => simp
  rw [lines, mapM_fails_iff]
  simp only [Report.resultLine_fails_iff, Value.shown_fails_iff]

namespace Session

/-- The run of an analysis has no outcome if and only if the snapshot is well formed and the text of a
tag that is taken up cannot be decoded. -/
theorem outcome_fails_iff (session : Session) (code : Text) (data : Option Json) :
    (∃ fault, session.outcome code data = .error fault) ↔
      ∃ snapshot tag fault, session.snapshotFor data = .ok snapshot ∧ snapshot.Seeds tag ∧
        Value.decode tag.value tag.dataType = .error fault := by
  have seeding : (∃ fault, session.outcome code data = .error fault) ↔
      ∃ fault, Environment.seed (session.tagsFor data) = .error fault := by
    unfold outcome Run.start
    cases Environment.seed (session.tagsFor data) with
    | ok env => simp [pure, Except.pure]
    | error fault => simp
  rw [seeding, Environment.seed_fails_iff, tagsFor]
  cases session.snapshotFor data with
  | ok snapshot => simp
  | error fault =>
    -- malformed data leaves no tags to take up
    constructor
    · rintro ⟨tag, _, ⟨before, after, whole, -⟩, -⟩
      cases before <;> cases whole
    · rintro ⟨_, _, _, same, -⟩
      cases same

end Session

/-- **When an analysis gives no report**, whatever the code, the data and the options: if and only if
the snapshot is well formed and the text of a tag that the environment takes up cannot be decoded, or
the run ends, with a fault or without, and leaves a whole number of more than 4300 digits among its
results. -/
theorem Session.analyze_fails_iff (session : Session) (code : Text) (data : Option Json) :
    (∃ fault, session.analyze code data = .error fault) ↔
      (∃ snapshot tag fault, session.snapshotFor data = .ok snapshot ∧ snapshot.Seeds tag ∧
        Value.decode tag.value tag.dataType = .error fault) ∨
      ∃ outcome, session.outcome code data = .ok outcome ∧
        ∃ b ∈ outcome.1.env.computed, ∃ n, b.value = .int n ∧ 10 ^ 4300 ≤ n.natAbs := by
  rw [← outcome_fails_iff session code data]
  cases ended : session.outcome code data with
  | error fault => exact ⟨fun _ => .inl ⟨fault, rfl⟩, fun _ => ⟨fault, analyze_of_unseeded ended⟩⟩
  | ok outcome =>
    obtain ⟨report, same, -⟩ := analyze_of_outcome ended
    have narrated : (∃ fault, session.analyze code data = .error fault) ↔
        ∃ fault, outcome.closed.narrative = .error fault := by
      rw [same]
      cases outcome.closed.narrative with
      | ok narrative => simp [Except.map]
      | error fault => simp [Except.map]
    rewrite [narrated, Run.narrative_fails_iff, Outcome.closed_env, Numeral.digitLimit]
    constructor
    · intro long
      exact .inr ⟨outcome, rfl, long⟩
    · rintro (⟨_, same⟩ | ⟨_, same, long⟩)
      · cases same
      · cases same
        exact long

-- both happen: a number of 6021 digits as a result, and a tag whose text has one digit too many
example : (Session.analyze {} "x := SHL(1,20000);".toText none).toOption = none := by
  decide +kernel

example : (Session.analyze
    { cache := Snapshot.empty.put
        (some "t".toText, ⟨"t".toText, List.replicate 4301 '1', "INT".toText, none, none⟩) }
    [] none).toOption = none := by
  decide +kernel

end SclNarrator

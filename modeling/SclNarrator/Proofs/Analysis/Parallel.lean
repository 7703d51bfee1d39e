import SclNarrator.Proofs.Analysis.Outcome
import SclNarrator.Proofs.Run.Parallel
import SclNarrator.Proofs.Run.Reorder
import SclNarrator.Proofs.Tag.Extraction

/-!
Two analyses of one code side by side, and two cases of it: other options, and the tags in another
order.

What is proved:
  1. if the tags seed environments that the code does not tell apart, then both analyses fail for one
     fault or both give a report, and the reports match but for what is told of values with different
     numbers of places (`Analysis.ofTags_matches`);
  2. under any two choices of the options an analysis fails for the same fault or gives a report that
     says the same (`Session.analyze_options`): only the places in the narrative and the records of
     names without a tag are a matter of options;
  3. a snapshot with the same entries in another order leads to the same report, whether it is the data
     of the analysis or the snapshot to fall back on (`Session.analyze_perm`).

Asked for in the last: the names of the tags differ in more than letter case and have no number sign in
front, and every tag can be decoded. The names are any texts besides: they may be empty, hold blanks
and operators, or begin one another.

Correspondence (analyzer ↔ here):
  `AnalyzerConfig`                  ↔ `Config`
  `format_value`                    ↔ `Value.shown`, the one reader of the number of places
  `extract_tags`                    ↔ `Extraction.ofCode`, the one reader of the other option
  `build_snapshot`, `set_tag_cache` ↔ `Session.snapshotFor`
-/

namespace SclNarrator

/-! ## Matching analyses -/

section

variable {same : Prop} {E : Environment → Environment → Prop}

theorem Run.Matches.narrative {run run' : Run} (h : run.Matches same E run')
    (computed : run.env.computed = run'.env.computed) : TellsAlike same run.narrative run'.narrative := by
  rw [Run.narrative, Run.narrative, ← h.diagnostics, ← computed]
  have results : Likewise (fun rs rs' => same → rs = rs')
      (run.env.computed.mapM (Report.resultLine run.places))
      (run.env.computed.mapM (Report.resultLine run'.places)) :=
    Likewise.mapM fun b _ => (TellsAlike.shown h.places b.value).around fun shown =>
      "  ".toText ++ b.name ++ " = ".toText ++ shown ++ " [".toText ++ b.declaredType ++ "]".toText
  exact results.bind fun _ _ told => .ok fun holds => by rw [told holds, h.steps holds]

theorem Outcome.Matches.closed {outcome outcome' : Outcome} (h : outcome.Matches same E outcome') :
    outcome.closed.Matches same E outcome'.closed := by
  obtain ⟨run, fault⟩ := outcome
  obtain ⟨run', fault'⟩ := outcome'
  obtain ⟨h, rfl⟩ := h
  cases fault with
  | none => exact h
  | some fault => exact h.warn _

namespace Analysis

/-- Whether two reports say the same: their tags are related, and what they tell is the same if a condition
holds. -/
structure Matches (same : Prop) (T : List TagRecord → List TagRecord → Prop) (a a' : Analysis) : Prop where
  success : a.success = a'.success
  construct : a.construct = a'.construct
  summary : a.summary = a'.summary
  tags : T a.tags a'.tags
  assignments : a.assignments = a'.assignments
  bindings : a.bindings = a'.bindings
  narrative : same → a.narrative = a'.narrative
  diagnostics : a.diagnostics = a'.diagnostics
  statistics : a.statistics = a'.statistics

theorem Matches.eq {a a' : Analysis} (h : Matches True Eq a a') : a = a' := by
  obtain ⟨⟩ := a
  obtain ⟨⟩ := a'
  obtain ⟨rfl, rfl, rfl, rfl, rfl, rfl, narrative, rfl, rfl⟩ := h
  obtain rfl := narrative trivial
  rfl

structure CountsAlike (T : List TagRecord → List TagRecord → Prop) (x x' : Extraction) : Prop where
  records : T x.records x'.records
  found : x.foundCount = x'.foundCount
  missing : x.unresolved.length = x'.unresolved.length

/-- **Reports match if the tags seed environments that the code does not tell apart.** -/
theorem ofTags_matches {config config' : Config} {code : Text} {snapshot snapshot' : Snapshot}
    {scope : Scope} {T : List TagRecord → List TagRecord → Prop} (earlier : List Diagnostic)
    (places : same → config.places = config'.places) (parallel : Parallel scope E)
    (covered : scope.Covers (Construct.classify code).kind (Source.stripComments true code))
    (computed : ∀ env env', E env env' → env.computed = env'.computed)
    (seeded : Likewise E (Environment.seed snapshot) (Environment.seed snapshot'))
    (extracted : CountsAlike T
      (Extraction.ofCode (Source.stripComments false code) snapshot config.reportUnresolved)
      (Extraction.ofCode (Source.stripComments false code) snapshot' config'.reportUnresolved)) :
    Likewise (Matches same T) (ofTags config code snapshot earlier)
      (ofTags config' code snapshot' earlier) := by
  have started : Likewise (Run.Matches same E) (Run.start snapshot config.places)
      (Run.start snapshot' config'.places) :=
    seeded.bind fun env env' related => .ok ⟨related, rfl, rfl, places, fun _ => rfl⟩
  unfold ofTags
  refine started.bind fun run run' h => ?_
  have begun : Run.Matches same E { run with diagnostics := earlier } { run' with diagnostics := earlier } :=
    { h with diagnostics := rfl }
  have executed := begun.execute parallel covered
  have closed := executed.closed
  have bindings := computed _ _ closed.env
  dsimp only
  rw [carryOut_eq, carryOut_eq]
  refine (closed.narrative bindings).bind fun narrative narrative' told => .ok ?_
  exact
    { success := by rw [executed.fault]
      construct := rfl
      summary := rfl
      tags := extracted.records
      assignments := closed.assignments
      bindings
      narrative := told
      diagnostics := closed.diagnostics
      statistics := by rw [extracted.found, extracted.missing] }

theorem ofTags_congr (config : Config) {code : Text} {snapshot snapshot' : Snapshot} {scope : Scope}
    (earlier : List Diagnostic) (parallel : Parallel scope E)
    (covered : scope.Covers (Construct.classify code).kind (Source.stripComments true code))
    (computed : ∀ env env', E env env' → env.computed = env'.computed)
    (seeded : Likewise E (Environment.seed snapshot) (Environment.seed snapshot'))
    (extraction : Extraction.ofCode (Source.stripComments false code) snapshot config.reportUnresolved =
      Extraction.ofCode (Source.stripComments false code) snapshot' config.reportUnresolved) :
    ofTags config code snapshot earlier = ofTags config code snapshot' earlier := by
  have counts : CountsAlike Eq
      (Extraction.ofCode (Source.stripComments false code) snapshot config.reportUnresolved)
      (Extraction.ofCode (Source.stripComments false code) snapshot' config.reportUnresolved) := by
    rw [extraction]
    exact ⟨rfl, rfl, rfl⟩
  exact (ofTags_matches earlier (fun _ => rfl) parallel covered computed seeded counts).eq
    fun _ _ => Matches.eq

end Analysis

end

/-! ## Other options

Values are shown while the code runs, and showing one can fail behind a binding and its record. It
fails for every number of places or for none, so the number neither cuts a run short nor comes into a
value. -/

theorem Environment.parallel_eq : Parallel Scope.all Eq where
  evaluate same _ _ := same ▸ rfl
  lookup same _ _ := same ▸ rfl
  made same _ _ := same ▸ rfl
  assign same a _ := by
    subst same
    cases Environment.assign _ a with
    | ok next => exact .ok rfl
    | error fault => exact .error fault

/-- Whether two lists of tags have the same records of the snapshot in the same order, and others only where
names without a tag are asked for. -/
structure TagRecord.SameFound (asked asked' : Bool) (tags tags' : List TagRecord) : Prop where
  found : tags.filter TagRecord.found = tags'.filter TagRecord.found
  unasked : asked = false → tags = tags'.filter TagRecord.found
  alike : asked = asked' → tags = tags'

theorem Extraction.sameFound_ofCode (code : Text) (snapshot : Snapshot) (asked asked' : Bool) :
    TagRecord.SameFound asked asked' (ofCode code snapshot asked).records
      (ofCode code snapshot asked').records := by
  have agrees := agrees_ofCode code snapshot asked asked'
  refine ⟨agrees.found, fun unasked => ?_, agrees.records⟩
  rw [← agrees.found, unasked, List.filter_eq_self.mpr (found_of_unasked code snapshot)]

/-- **Options do not change the meaning of an analysis.** -/
theorem Session.analyze_options (config config' : Config) (cache : Snapshot) (code : Text)
    (data : Option Json) :
    Likewise
      (Analysis.Matches (config.places = config'.places)
        (TagRecord.SameFound config.reportUnresolved config'.reportUnresolved))
      (Session.analyze ⟨config, cache⟩ code data) (Session.analyze ⟨config', cache⟩ code data) := by
  rw [analyze_eq_ofTags, analyze_eq_ofTags]
  have tags : Session.tagsFor ⟨config', cache⟩ data = Session.tagsFor ⟨config, cache⟩ data := rfl
  have leading : Session.leading ⟨config', cache⟩ data = Session.leading ⟨config, cache⟩ data := rfl
  rw [tags, leading]
  generalize Session.tagsFor ⟨config, cache⟩ data = snapshot
  have seeded : Likewise Eq (Environment.seed snapshot) (Environment.seed snapshot) := by
    cases Environment.seed snapshot with
    | ok env => exact .ok rfl
    | error fault => exact .error fault
  have agrees := Extraction.agrees_ofCode (Source.stripComments false code) snapshot config.reportUnresolved
    config'.reportUnresolved
  exact Analysis.ofTags_matches _ id Environment.parallel_eq (Scope.covers_all _ _)
    (fun _ _ => congrArg _) seeded
    ⟨Extraction.sameFound_ofCode .., agrees.foundCount_eq, congrArg _ agrees.unresolved⟩

-- the places do come into the narrative, and names without a tag among the records
example :
    let code := "x := 1.0 / 3.0; y := z;".toText
    let plain := (Session.analyze {} code none).toOption
    let other := (Session.analyze ⟨{ reportUnresolved := true, places := 4 }, .empty⟩ code none).toOption
    plain.map Analysis.narrative ≠ other.map Analysis.narrative ∧ plain.map Analysis.tags = some [] ∧
      other.map (·.tags.map TagRecord.name) = some ["x".toText, "y".toText, "z".toText] := by
  decide +kernel

/-! ## The order of the tags -/

theorem Snapshot.find?_perm {snapshot snapshot' : Snapshot} (perm : snapshot.entries.Perm snapshot'.entries)
    (name : Text) : snapshot.find? name = snapshot'.find? name := by
  have apart := List.pairwise_filterMap.mp snapshot.nodup
  have one : ∀ ⦃e⦄, e ∈ snapshot.entries → ∀ ⦃e'⦄, e' ∈ snapshot.entries →
      ∀ key, e.1 = some key → e'.1 = some key → e = e' :=
    List.Pairwise.forall_of_forall_of_flip (fun _ _ _ _ _ => rfl)
      (apart.imp fun ne key here there => absurd rfl (ne key here key there))
      (apart.imp fun ne key there here => absurd rfl (ne key here key there))
  have lookup (key : Text) : snapshot.entries.lookup (some key) = snapshot'.entries.lookup (some key) :=
    lookup_perm perm fun _ mem _ mem' => one mem mem' key
  simp only [find?, lookup]

/-- **The order of the tags does not matter**, whether a snapshot is the host's data or the one to
fall back on. -/
theorem Session.analyze_perm {session session' : Session} {data data' : Option Json}
    {snapshot snapshot' : Snapshot}
    (config : session.config = session'.config) (given : session.snapshotFor data = .ok snapshot)
    (given' : session'.snapshotFor data' = .ok snapshot') (perm : snapshot.entries.Perm snapshot'.entries)
    (names : (snapshot.tags.map (·.name.fold)).Nodup)
    (bare : ∀ t ∈ snapshot.tags, t.name.head? ≠ some (.char '#'))
    (decodes : ∀ t ∈ snapshot.tags, ∃ value, Value.decode t.value t.dataType = .ok value) (code : Text) :
    session.analyze code data = session'.analyze code data' := by
  rw [analyze_eq_ofTags, analyze_eq_ofTags, tagsFor, tagsFor, leading, leading, given, given', config]
  exact Analysis.ofTags_congr _ [] Environment.Reordered.parallel (Scope.covers_all _ _)
    (fun _ _ => Environment.Reordered.computed_eq) (Environment.seed_perm perm names bare decodes)
    (Extraction.ofCode_congr _ fun name _ => Snapshot.find?_perm perm name)

def wholeTag (name value : String) : Tag :=
  { name := name.toText, value := value.toText, dataType := "INT".toText }

/-- Tags without a name, with a blank or an operator in it, with a name that begins another one, and with a
number for a name. -/
def oddTags : List Tag :=
  [wholeTag "" "5", wholeTag "A" "1", wholeTag "A B" "2", wholeTag "A+1" "3", wholeTag "B" "4",
    wholeTag "7" "6"]

def Tag.entry (t : Tag) : Option Text × Tag := (some t.name, t)

def oddSnapshot : Snapshot := ⟨oddTags.map Tag.entry, by decide +kernel⟩

def oddSnapshotReversed : Snapshot := ⟨oddTags.reverse.map Tag.entry, by decide +kernel⟩

/-- An assignment of nothing, one of a name with a blank, and one of a name that holds another one. -/
def oddCode : Text := "y := ; A := A B; x := A+1;".toText

/-- The odd tags in their order and in reverse. -/
theorem Session.analyze_perm_oddTags :
    oddSnapshot.entries.Perm oddSnapshotReversed.entries ∧ (oddSnapshot.tags.map (·.name.fold)).Nodup ∧
    (∀ t ∈ oddSnapshot.tags, t.name.head? ≠ some (.char '#')) ∧
    (∀ t ∈ oddSnapshot.tags, ∃ value, Value.decode t.value t.dataType = .ok value) ∧
    Session.analyze ⟨{}, oddSnapshot⟩ oddCode none =
      Session.analyze ⟨{}, oddSnapshotReversed⟩ oddCode none := by
  have given (snapshot : Snapshot) : Session.snapshotFor ⟨{}, snapshot⟩ none = .ok snapshot := rfl
  have config : (Session.mk {} oddSnapshot).config = (Session.mk {} oddSnapshotReversed).config := rfl
  have perm : oddSnapshot.entries.Perm oddSnapshotReversed.entries :=
    (List.reverse_perm oddTags).symm.map Tag.entry
  have names : (oddSnapshot.tags.map (·.name.fold)).Nodup := by decide +kernel
  have bare : ∀ t ∈ oddSnapshot.tags, t.name.head? ≠ some (.char '#') := by decide +kernel
  have decodes : ∀ t ∈ oddSnapshot.tags, ∃ value, Value.decode t.value t.dataType = .ok value := by
    simp only [oddSnapshot, oddTags, Snapshot.tags, Snapshot.map, Tag.entry, List.map_cons, List.map_nil,
      List.forall_mem_cons]
    exact ⟨⟨_, rfl⟩, ⟨_, rfl⟩, ⟨_, rfl⟩, ⟨_, rfl⟩, ⟨_, rfl⟩, ⟨_, rfl⟩, fun _ mem =>
      absurd mem List.not_mem_nil⟩
  exact ⟨perm, names, bare, decodes,
    Session.analyze_perm config (given oddSnapshot)
      (given oddSnapshotReversed) perm names bare decodes oddCode⟩

-- of two names that differ in letter case only, the first tag is taken
example :
    let small : Option Text × Tag := (some ['a'], { name := ['a'], value := ['1'], dataType := "INT".toText })
    let capital : Option Text × Tag :=
      (some ['A'], { name := ['A'], value := ['2'], dataType := "INT".toText })
    Session.analyze ⟨{}, (Snapshot.empty.put small).put capital⟩ "x := A;".toText none ≠
      Session.analyze ⟨{}, (Snapshot.empty.put capital).put small⟩ "x := A;".toText none := by
  decide +kernel

end SclNarrator

import SclNarrator.Proofs.Program.Silence
import SclNarrator.Proofs.Run.Parallel

/-!
Two runs of one code over environments that are alike but for a name that the code does not mention.
An assignment binds another name, and environments that were alike stay alike
(`Environment.parallel_alike`). What a run evaluates, looks up or assigns is read from the code, and
does not mention the name either (`Unmentioned.covers`). So the runs match under every construct.
-/

namespace SclNarrator

namespace Environment

variable {n : Text} {env env' next next' : Environment}

/-! ## Binding -/

/-- One more binding under its folded name leaves an environment tidy. -/
theorem Tidy.add (tidy : env.Tidy n) {b : Binding}
    (entries : ∀ e ∈ next.entries, e = (b.name.fold, b) ∨ e ∈ env.entries)
    (identifier : Term.isIdentifier b.name = true) (origin : b.name.fold = n → b.origin = .cache) :
    next.Tidy n := by
  refine ⟨fun e mem => ?_, fun e mem => ?_, fun e mem => ?_⟩
  · rcases entries e mem with rfl | mem
    · rfl
    · exact tidy.key e mem
  · rcases entries e mem with rfl | mem
    · exact identifier
    · exact tidy.identifier e mem
  · rcases entries e mem with rfl | mem
    · exact origin
    · exact tidy.origin e mem

/-- Binding another name leaves an environment tidy. -/
theorem Tidy.bind (tidy : env.Tidy n) {name type : Text} {value : Value}
    (identifier : Term.isIdentifier name = true)
    (other : name.fold ≠ n) (h : env.bind name value type = .ok next) : next.Tidy n := by
  refine tidy.add (b := ⟨name, value, type, .computed⟩) (fun e mem => ?_) identifier fun same =>
    absurd same other
  rcases bind_cases h with ⟨_, -, -, entries⟩ | ⟨-, entries⟩
  · rw [entries] at mem
    rcases List.mem_append.mp mem with mem | mem
    · exact .inr (List.mem_filter.mp mem).1
    · exact .inl (List.mem_singleton.mp mem)
  · rw [entries] at mem
    exact mem_putKey mem

/-- Environments that are alike stay alike when another name is bound. -/
theorem Alike.bind (alike : Alike n env env') {name : Text} (identifier : Term.isIdentifier name = true)
    (other : name.fold ≠ n) (value : Value) (type : Text) :
    Likewise (Alike n) (env.bind name value type) (env'.bind name value type) := by
  refine likewise_bind fun next next' left right => ?_
  refine ⟨?_, alike.left.bind identifier other left, alike.right.bind identifier other right⟩
  have found := alike.entries_lookup other
  have same := alike.others
  unfold Environment.others at same ⊢
  rcases bind_cases_of_lookup found left right with ⟨entries, entries'⟩ | ⟨-, entries, entries'⟩
  · rw [entries, entries', List.filter_append, List.filter_append, List.filter_comm, same, List.filter_comm]
  · rw [entries, entries', filter_putKey_of_ne other, filter_putKey_of_ne other, same]

/-- What was assigned does not stand under the key. -/
theorem Tidy.computed_eq (tidy : env.Tidy n) :
    env.computed = ((env.others n).map Prod.snd).filter (·.origin = .computed) := by
  unfold computed bindings others
  rw [List.filter_map, List.filter_map, List.filter_filter]
  refine congrArg _ (List.filter_congr fun e mem => ?_)
  by_cases key : e.1 = n
  · simp [tidy.origin e mem key]
  · simp [key]

theorem Alike.computed_eq (alike : Alike n env env') : env.computed = env'.computed := by
  rw [alike.left.computed_eq, alike.right.computed_eq, alike.others]

/-! ## Seeding -/

theorem Tidy.seedTag (tidy : env.Tidy n) {tag : Tag} (identifier : Term.isIdentifier tag.name = true)
    (h : env.seedTag tag = .ok next) : next.Tidy n := by
  obtain ⟨-, rfl⟩ | ⟨-, value, -, rfl⟩ := seedTag_cases h
  · exact tidy
  · exact tidy.add (b := ⟨tag.name, value, tag.dataType, .cache⟩)
      (fun e mem => mem_putKey mem) identifier fun _ => rfl

theorem others_seedTag {tag : Tag} (h : env.seedTag tag = .ok next) (key : tag.name.fold = n) :
    next.others n = env.others n := by
  obtain ⟨-, rfl⟩ | ⟨-, value, -, rfl⟩ := seedTag_cases h
  · rfl
  · subst key
    exact filter_putKey _ _ _

theorem seedTag_of_decode {tag : Tag} {value : Value}
    (decoded : Value.decode tag.value tag.dataType = .ok value)
    (env : Environment) : ∃ next, env.seedTag tag = .ok next := by
  cases taken : env.seedTag tag with
  | ok next => exact ⟨next, rfl⟩
  | error fault =>
    rw [(seedTag_fails_iff.mp taken).2] at decoded
    cases decoded

/-- Environments that are alike stay alike when a tag is taken up, if its text can be decoded in case that
it has the name. -/
theorem Alike.seedTag (alike : Alike n env env') {tag : Tag} (identifier : Term.isIdentifier tag.name = true)
    (decodes : tag.name.fold = n → ∃ value, Value.decode tag.value tag.dataType = .ok value) :
    Likewise (Alike n) (env.seedTag tag) (env'.seedTag tag) := by
  have tidy {env next : Environment} (tidy : env.Tidy n) (taken : env.seedTag tag = .ok next) : next.Tidy n :=
    tidy.seedTag identifier taken
  by_cases key : tag.name.fold = n
  · obtain ⟨value, decoded⟩ := decodes key
    obtain ⟨next, left⟩ := seedTag_of_decode decoded env
    obtain ⟨next', right⟩ := seedTag_of_decode decoded env'
    rw [left, right]
    refine .ok ⟨?_, tidy alike.left left, tidy alike.right right⟩
    rw [others_seedTag left key, others_seedTag right key, alike.others]
  · have found : env.lookup tag.name = env'.lookup tag.name :=
      alike.lookup (by rwa [lookupKey_of_isIdentifier identifier])
    cases left : env.seedTag tag with
    | error fault =>
      obtain ⟨free, failed⟩ := seedTag_fails_iff.mp left
      rw [seedTag_fails_iff.mpr ⟨found ▸ free, failed⟩]
      exact .error fault
    | ok next =>
      cases right : env'.seedTag tag with
      | error fault =>
        obtain ⟨free, failed⟩ := seedTag_fails_iff.mp right
        rw [seedTag_fails_iff.mpr ⟨found.symm ▸ free, failed⟩] at left
        cases left
      | ok next' =>
        refine .ok ⟨?_, tidy alike.left left, tidy alike.right right⟩
        have same := alike.others
        obtain ⟨bound, rfl⟩ | ⟨free, value, decoded, rfl⟩ := seedTag_cases left
        · obtain ⟨-, rfl⟩ | ⟨free, -, -, -⟩ := seedTag_cases right
          · exact same
          · rw [found, free] at bound
            cases bound
        · obtain ⟨bound, rfl⟩ | ⟨-, value', decoded', rfl⟩ := seedTag_cases right
          · rw [found, bound] at free
            cases free
          · obtain rfl := Except.ok.inj (decoded.symm.trans decoded')
            unfold Environment.others at same ⊢
            rw [filter_putKey_of_ne key, filter_putKey_of_ne key, same]

/-- One more tag that can be decoded leaves the environments that are seeded alike but for its name. -/
theorem seed_insert {before after : List Tag} {tag : Tag}
    (identifiers : ∀ t ∈ before ++ tag :: after, Term.isIdentifier t.name = true)
    (decodes : ∀ t ∈ tag :: after, t.name.fold = tag.name.fold →
      ∃ value, Value.decode t.value t.dataType = .ok value) :
    Likewise (Alike tag.name.fold) ((before ++ tag :: after).foldlM seedTag {})
      ((before ++ after).foldlM seedTag {}) := by
  rw [List.forall_mem_append, List.forall_mem_cons] at identifiers
  rw [List.forall_mem_cons] at decodes
  rw [List.foldlM_append, List.foldlM_append]
  cases taken : before.foldlM seedTag {} with
  | error fault => exact .error fault
  | ok env =>
    have tidy : env.Tidy tag.name.fold :=
      foldlM_kept (P := Tidy tag.name.fold) taken
        (fun _ _ _ mem taken tidy => tidy.seedTag (identifiers.1 _ mem) taken)
        ⟨fun _ mem => absurd mem List.not_mem_nil, fun _ mem => absurd mem List.not_mem_nil,
          fun _ mem => absurd mem List.not_mem_nil⟩
    obtain ⟨value, decoded⟩ := decodes.1 rfl
    obtain ⟨next, first⟩ := seedTag_of_decode decoded env
    have alike : Alike tag.name.fold next env :=
      ⟨others_seedTag first rfl, tidy.seedTag identifiers.2.1 first, tidy⟩
    rw [ok_bind, ok_bind, List.foldlM_cons, first, ok_bind]
    exact Likewise.foldlM
      (fun t mem _ _ alike => alike.seedTag (identifiers.2.2 t mem) (decodes.2 t mem)) alike

end Environment

/-! ## Texts for display -/

theorem Text.collapse_of_visible {t : Text} (visible : ∀ c ∈ t, isBlank c = false) : t.collapse = t := by
  have words (t : Text) : ∀ word : Text, (∀ c ∈ t, isBlank c = false) → word ++ t ≠ [] →
      wordsFrom word t = [word.reverse ++ t] := by
    induction t with
    | nil =>
      intro word _ ne
      rw [List.append_nil] at ne ⊢
      rw [wordsFrom, if_neg (by simpa using ne)]
    | cons c t ih =>
      intro word visible _
      rw [List.forall_mem_cons] at visible
      rw [wordsFrom, if_neg (by simp [visible.1]), ih (c :: word) visible.2 (by simp)]
      simp
  cases t with
  | nil => rfl
  | cons c t => rw [collapse, Text.words, words _ [] visible (by simp)]; rfl

theorem displayed_of_visible {t : Text} (double : .char '"' ∉ t) (visible : ∀ c ∈ t, isBlank c = false) :
    displayed t = t := by
  have same : Text.replaceAll quotedName t = t := Text.replaceAll_of_none fun x y whole _ =>
    Substitution.quotedName_of_not_mem fun mem => double (whole ▸ List.mem_append_right x mem)
  rw [displayed, same, Text.collapse_of_visible visible]

/-! ## Runs -/

theorem Source.infix_of_mem_toldExpressions {kind : ConstructKind} {code e : Text}
    (mem : e ∈ toldExpressions kind code) : e <:+: code := by
  have parameter (mem : e ∈ (Text.findAll call code).flatMap fun c =>
      (c.parameterList.filter fun p => !p.output).map Parameter.expression) : e <:+: code := by
    obtain ⟨c, among, own⟩ := List.mem_flatMap.mp mem
    obtain ⟨p, kept, rfl⟩ := List.mem_map.mp own
    obtain ⟨back, y, rest, here, last⟩ := Text.exists_of_mem_findAll among
    obtain ⟨front, after, whole, -, -⟩ := Program.call_eq_some here
    have inside : c.parameters <:+: y := ⟨front, .char ')' :: after, by rw [whole]; simp⟩
    exact (Program.infix_of_mem_parameterList (List.mem_filter.mp kept).1).trans (inside.trans last.isInfix)
  cases kind with
  | «if» =>
    obtain ⟨block, found, own⟩ := List.mem_flatMap.mp mem
    obtain ⟨b, branch, own⟩ := List.mem_flatMap.mp own
    have part := ((Program.within_of_split? (Option.mem_toList.mp found)).branches b branch).1
    rcases List.mem_cons.mp own with rfl | operand
    · exact part
    · exact (Program.infix_of_mem_logicOperands operand).trans part
  | «while» =>
    obtain ⟨⟨before, condition, after⟩, found, rfl⟩ := List.mem_map.mp mem
    obtain ⟨y, whole, here⟩ := Text.search_eq_some (Option.mem_toList.mp found)
    exact whole ▸ (Program.isHeader_whileHeader here).2.trans (List.suffix_append before y).isInfix
  | «repeat» =>
    obtain ⟨⟨before, condition, after⟩, found, rfl⟩ := List.mem_map.mp mem
    obtain ⟨y, whole, here⟩ := Text.search_eq_some (Option.mem_toList.mp found)
    exact whole ▸ (Program.isHeader_untilHeader here).2.trans (List.suffix_append before y).isInfix
  | timer => exact parameter mem
  | counter => exact parameter mem
  | «for» => cases mem
  | case => cases mem
  | plain => cases mem

/-- Whether a code does not mention a name, in whichever way a run could come to it under a kind of
construct. -/
structure Unmentioned (n : Text) (kind : ConstructKind) (code : Text) : Prop extends Silent n code where
  point : .char '.' ∉ n
  unescaped : ∀ e ∈ Source.toldExpressions kind code, e.count (.char '\'') % 2 = 1 → Unescaped e
  absent : ∀ w : Text, w <:+: code → w.fold ≠ n

/-- What can be evaluated, looked up and assigned without a mention of a name. -/
def Scope.without (n : Text) : Scope where
  expression e := .char '"' ∉ e ∧ Free n e ∧ (e.count (.char '\'') % 2 = 0 ∨ Unescaped e)
  name name := Environment.lookupKey name ≠ n
  assignment a := Term.isIdentifier a.target = true ∧ a.target.fold ≠ n ∧
    .char '"' ∉ a.expression ∧ Free n a.expression ∧ a.expression.count (.char '\'') % 2 = 0

/-- Environments that are alike but for a name are parallel where the name is not mentioned. -/
theorem Environment.parallel_alike {n : Text} (point : .char '.' ∉ n) :
    Parallel (Scope.without n) (Alike n) := by
  have value {env env' : Environment} (alike : Alike n env env') (e : Text)
      (covered : (Scope.without n).expression e) : env.evaluate e = env'.evaluate e :=
    alike.evaluate_eq point covered.1 covered.2.2 covered.2.1
  have made {env env' : Environment} (alike : Alike n env env') (a : Source.Assignment)
      (covered : (Scope.without n).assignment a) : env.made a = env'.made a := by
    obtain ⟨-, -, double, free, even⟩ := covered
    rw [Environment.made, Environment.made, value alike _ ⟨double, free, .inl even⟩]
  refine ⟨value, fun alike name other => alike.lookup other, made, fun alike a covered => ?_⟩
  rw [Environment.assign, Environment.assign, made alike a covered]
  exact alike.bind covered.1 covered.2.1 _ _

namespace Unmentioned

variable {n code : Text} {kind : ConstructKind} (unmentioned : Unmentioned n kind code)
include unmentioned

theorem expression {e : Text} (told : e ∈ Source.toldExpressions kind code) :
    (Scope.without n).expression e := by
  have silent := unmentioned.toSilent.of_part (Source.infix_of_mem_toldExpressions told)
  refine ⟨silent.double, silent.free, ?_⟩
  exact (Nat.mod_two_eq_zero_or_one _).imp id (unmentioned.unescaped e told)

omit unmentioned in
theorem statements (silent : Silent n code) : (Scope.without n).Statements code := fun _ mem =>
  Program.silent_assignments silent mem

theorem names {condition : Text} (part : condition <:+: code) :
    ∀ name ∈ Source.identifiers condition, (Scope.without n).name name := by
  intro name mem
  have silent := unmentioned.toSilent.of_part part
  obtain ⟨inside, plain⟩ := infix_of_mem_identifiers silent.double mem
  have identifier := Program.isIdentifier_term plain
  change Environment.lookupKey name ≠ n
  rw [Environment.lookupKey_of_isIdentifier identifier]
  exact silent.free.fold_ne inside identifier

theorem block {block : Source.IfBlock} (within : Program.Within block code) :
    (Scope.without n).Block block where
  before := statements (unmentioned.toSilent.of_part within.before)
  branches b mem := ⟨unmentioned.names (within.branches b mem).1,
    statements (unmentioned.toSilent.of_part (within.branches b mem).2)⟩
  otherwise body mem := statements (unmentioned.toSilent.of_part (within.otherwise body mem))
  after := statements (unmentioned.toSilent.of_part within.after)

/-- The code without the header of a loop does not mention the name either. -/
theorem silent_describeLoop (run : Run) : Silent n (run.describeLoop kind code).2 := by
  have rest {before y after : Text} (whole : code = before ++ y)
      (header : Program.IsHeader before.reverse y after) :
      Silent n (before ++ after) :=
    (whole ▸ unmentioned.toSilent).without_header header
  unfold Run.describeLoop
  split
  · split
    · next found =>
      obtain ⟨y, whole, here⟩ := Text.search_eq_some found
      exact rest whole (Program.isHeader_forHeader here)
    · exact unmentioned.toSilent
  · split
    · next found =>
      obtain ⟨y, whole, here⟩ := Text.search_eq_some found
      exact rest whole (Program.isHeader_whileHeader here).1
    · exact unmentioned.toSilent
  · split
    · next found =>
      obtain ⟨y, whole, here⟩ := Text.search_eq_some found
      exact rest whole (Program.isHeader_untilHeader here).1
    · exact unmentioned.toSilent

theorem selector {written : Text} (part : written <:+: code) (visible : ∀ c ∈ written, isBlank c = false) :
    (Scope.without n).name (Text.dropLeading '#' (displayed written)) := by
  change Environment.lookupKey _ ≠ n
  rw [displayed_of_visible (fun mem => unmentioned.double (part.subset mem)) visible, Environment.lookupKey,
    Text.dropLeading_of_head? (Text.head?_dropLeading written)]
  exact unmentioned.absent _ ((List.dropWhile_suffix _).isInfix.trans part)

/-- **All that a code lets a run do is without a mention of a name, if the code is.** -/
theorem covers : (Scope.without n).Covers kind code where
  statements := statements unmentioned.toSilent
  expressions _ told := unmentioned.expression told
  block _ found := unmentioned.block (Program.within_of_split? found)
  loop run := statements (unmentioned.silent_describeLoop run)
  selector before written after found := by
    obtain ⟨y, whole, here⟩ := Text.search_eq_some found
    obtain ⟨header, part, visible⟩ := Program.isHeader_caseHeader here
    exact ⟨unmentioned.selector (whole ▸ part.trans (List.suffix_append before y).isInfix) visible,
      statements ((whole ▸ unmentioned.toSilent).without_header header)⟩

end Unmentioned
end SclNarrator

import SclNarrator.Proofs.Expr.Signs
import SclNarrator.Proofs.Expr.Unmentioned

/-!
Names replaced and tokens scanned segment by segment. A name is a whole word, so it gives way to its
value whatever stands behind the next parenthesis or word that joins (`replaceNames_append`). With
what the signs do to the other stages of an evaluation, a text is read into the tokens of the
segment before its first sign, the sign, and the tokens of the text behind it (`read_sign`).
-/

namespace SclNarrator
namespace Substitution

variable {names : List Text} {f : Text → Except Fault Text} {back back' w rest t : Text}

/-! ## Names word by word -/

theorem replaceNames_behind (same : allowsNameAfter back = allowsNameAfter back') (skip : Nat) (t : Text) :
    replaceNames names f skip back t = replaceNames names f skip back' t := by
  induction t generalizing skip back back' with
  | nil => rw [replaceNames, replaceNames, nameAt?, nameAt?, same]
  | cons c t ih =>
    have ahead : allowsNameAfter (c :: back) = allowsNameAfter (c :: back') := rfl
    have later (skip : Nat) : replaceNames names f skip (c :: back) t =
        replaceNames names f skip (c :: back') t :=
      ih ahead skip
    cases skip with
    | succ skip => exact later skip
    | zero =>
      rw [replaceNames, replaceNames, nameAt?, nameAt?, same]
      simp only [later]

theorem replaceNames_kept {u : Text} (letters : ∀ c ∈ u, isWord c = true)
    (here : u ≠ [] → nameAt? names back (u ++ rest) = none) :
    replaceNames names f 0 back (u ++ rest) = (replaceNames names f 0 (u.reverse ++ back) rest).map
      (u ++ ·) := by
  induction u generalizing back with
  | nil =>
    rw [List.nil_append, List.reverse_nil, List.nil_append]
    cases replaceNames names f 0 back rest <;> rfl
  | cons c u ih =>
    obtain ⟨word, letters⟩ := List.forall_mem_cons.mp letters
    have here := here (List.cons_ne_nil c u)
    rw [List.cons_append] at here ⊢
    rw [replaceNames, here]
    simp only
    -- behind its first character no name stands in a word
    rw [ih letters fun _ => nameAt?_of_isWord word, List.reverse_cons, List.append_assoc,
      List.singleton_append]
    cases replaceNames names f 0 (u.reverse ++ c :: back) rest <;> rfl

variable (fine : ∀ n ∈ names, Term.isIdentifier n = true)
include fine

theorem nameAt?_word (letters : ∀ c ∈ w, isWord c = true) (stop : Stops isWord rest) :
    nameAt? names back (w ++ rest) =
      if allowsNameAfter back = true ∧ w ∈ names ∧ allowsNameBefore rest = true then some w else none := by
  split
  · next allowed => exact (nameAt?_eq_some_iff fine).mpr ⟨allowed.2.1, allowed.1, rest, rfl, allowed.2.2⟩
  · next refused =>
    rw [Option.eq_none_iff_forall_ne_some]
    intro n found
    obtain rfl : n = w := by rw [← takeWhile_of_nameAt? fine found, takeWhile_append_of_stops letters stop]
    obtain ⟨mem, before, after, same, behind⟩ := (nameAt?_eq_some_iff fine).mp found
    obtain rfl := List.append_cancel_left same
    exact refused ⟨before, mem, behind⟩

theorem replaceNames_word (letters : ∀ c ∈ w, isWord c = true) (stop : Stops isWord rest) :
    replaceNames names f 0 back (w ++ rest) = (do
      let v ← (nameAt? names back (w ++ rest)).elim (.ok w) f
      let r ← replaceNames names f 0 (w.reverse ++ back) rest
      return v ++ r) := by
  cases found : nameAt? names back (w ++ rest) with
  | some n =>
    obtain rfl : n = w := by rw [← takeWhile_of_nameAt? fine found, takeWhile_append_of_stops letters stop]
    cases n with
    | nil => cases fine [] (exists_of_nameAt? found).1
    | cons c n =>
      rw [List.cons_append] at found ⊢
      rw [replaceNames, found]
      simp only [replaceNames_skip, Option.elim_some, List.reverse_cons, List.append_assoc,
        List.singleton_append]
  | none =>
    rw [replaceNames_kept letters fun _ => found, Option.elim_none, ok_bind]
    cases replaceNames names f 0 (w.reverse ++ back) rest <;> rfl

theorem replaceNames_cons {h : CodePoint} (mark : isWord h = false) (back t : Text) :
    replaceNames names f 0 back (h :: t) = (do return h :: (← replaceNames names f 0 (h :: back) t)) := by
  have start : isNameStart h = false := by
    rw [Bool.eq_false_iff]
    intro start
    rw [isWord_of_isNameStart start] at mark
    cases mark
  rw [replaceNames, nameAt?_of_stops fine (stops_cons.mpr start)]

theorem replaceNames_nil (back : Text) : replaceNames names f 0 back [] = .ok [] := by
  rw [replaceNames, nameAt?_of_stops fine stops_nil]

/-- Two texts have their names replaced one by one if no name goes on from one into the other or is
refused for what follows it. -/
theorem replaceNames_append {x y : Text}
    (apart : Stops isWord x.reverse ∨ allowsNameBefore y = true) (back : Text) :
    replaceNames names f 0 back (x ++ y) = (do
      let a ← replaceNames names f 0 back x
      let b ← replaceNames names f 0 (x.reverse ++ back) y
      return a ++ b) := by
  induction x using words_induction generalizing back with
  | last w letters =>
    rcases apart with stop | allowed
    · obtain rfl := eq_nil_of_stops letters stop
      rw [replaceNames_nil fine, ok_bind, List.nil_append, List.reverse_nil, List.nil_append]
      cases replaceNames names f 0 back y <;> rfl
    · have stop := stops_of_allowsNameBefore allowed
      have alone := @replaceNames_word names f back w [] fine letters stops_nil
      have same : nameAt? names back (w ++ y) = nameAt? names back (w ++ []) := by
        rw [nameAt?_word fine letters stop, nameAt?_word fine letters stops_nil, allowed]
        rfl
      rw [List.append_nil, replaceNames_nil fine] at alone
      rw [replaceNames_word fine letters stop, same, alone, List.append_nil]
      cases (nameAt? names back w).elim (.ok w) f with
      | error fault => rfl
      | ok v =>
        cases replaceNames names f 0 (w.reverse ++ back) y with
        | error fault => rfl
        | ok b => simp
  | cons w h t letters mark ih =>
    have near : Stops isWord t.reverse ∨ allowsNameBefore y = true := by
      refine apart.imp_left fun stop => ?_
      rw [List.reverse_append, List.reverse_cons, List.append_assoc] at stop
      exact stop.of_append
    have stop (u : Text) : Stops isWord (h :: u) := stops_cons.mpr mark
    have same : nameAt? names back (w ++ h :: (t ++ y)) = nameAt? names back (w ++ h :: t) := by
      rw [nameAt?_word fine letters (stop _), nameAt?_word fine letters (stop _)]
      rfl
    rw [List.append_assoc, List.cons_append, replaceNames_word fine letters (stop _),
      replaceNames_word fine letters (stop _), same, replaceNames_cons fine mark,
        replaceNames_cons fine mark, ih near]
    have behind : (w ++ h :: t).reverse ++ back = t.reverse ++ (h :: (w.reverse ++ back)) := by simp
    rw [behind]
    cases (nameAt? names back (w ++ h :: t)).elim (.ok w) f with
    | error fault => rfl
    | ok v =>
      cases replaceNames names f 0 (h :: (w.reverse ++ back)) t with
      | error fault => rfl
      | ok a =>
        cases replaceNames names f 0 (t.reverse ++ h :: (w.reverse ++ back)) y with
        | error fault => rfl
        | ok b => simp [pure, Except.pure]

theorem replaceNames_of_stops {y : Text} (stop : Stops isWord y) (back back' : Text) :
    replaceNames names f 0 back y = replaceNames names f 0 back' y := by
  cases y with
  | nil => rw [replaceNames_nil fine, replaceNames_nil fine]
  | cons h y =>
    rw [stops_cons] at stop
    have ahead : allowsNameAfter (h :: back) = allowsNameAfter (h :: back') := rfl
    rw [replaceNames_cons fine stop, replaceNames_cons fine stop, replaceNames_behind ahead]

/-- The names before a character that touches no name and behind it are replaced as if the texts
stood alone. -/
theorem replaceNames_append_cons {h : CodePoint} (mark : isWord h = false)
    (touch : h ≠ '.' ∧ h ≠ '#') (x y : Text) :
    replaceNames names f 0 [] (x ++ h :: y) = (do
      let a ← replaceNames names f 0 [] x
      let b ← replaceNames names f 0 [] y
      return a ++ h :: b) := by
  have ahead : allowsNameBefore (h :: y) = true := by simp [allowsNameBefore, mark, touch]
  have behind : allowsNameAfter (h :: (x.reverse ++ [])) = allowsNameAfter [] := by
    simp [allowsNameAfter, mark, touch]
  rw [replaceNames_append fine (.inr ahead), replaceNames_cons fine mark, replaceNames_behind behind]
  cases replaceNames names f 0 [] x with
  | error fault => rfl
  | ok a => cases replaceNames names f 0 [] y <;> rfl

theorem replaceNames_sign (other : ∀ n ∈ names, ∀ j : Junction, n.map looseLetter ≠ j.keyword) {s : Sign}
    {x m y : Text} (stands : s.Stands x m y) :
    replaceNames names f 0 [] (x ++ (m ++ y)) = (do
      let a ← replaceNames names f 0 [] x
      let b ← replaceNames names f 0 [] y
      return a ++ (m ++ b)) := by
  cases s with
  | opening =>
    have same : m = ['('] := stands
    subst same
    exact replaceNames_append_cons fine (by decide) (by decide) x y
  | closing =>
    have same : m = [')'] := stands
    subst same
    exact replaceNames_append_cons fine (by decide) (by decide) x y
  | junction j =>
    obtain ⟨spelled, before, stop⟩ := stands
    have letters : ∀ c ∈ m, isWord c = true := j.isWord_of_spelled spelled
    have absent : m ∉ names := fun mem => other m mem j spelled
    have kept (back : Text) : nameAt? names back (m ++ y) = none := by
      rw [nameAt?_word fine letters stop, if_neg]
      exact fun allowed => absent allowed.2.1
    rw [replaceNames_append fine (.inl before), replaceNames_word fine letters stop, kept,
      Option.elim_none, ok_bind, replaceNames_of_stops fine stop _ []]
    cases replaceNames names f 0 [] x with
    | error fault => rfl
    | ok a => cases replaceNames names f 0 [] y <;> rfl

end Substitution

/-! ## What comes in for names -/

section Kinds

variable {word : Text → Prop} {sign : CodePoint → Prop}

theorem Pieced.append_cons {v r : Text} {h : CodePoint} (first : Worded word sign v) (mark : isWord h = false)
    (allowed : sign h) (later : Pieced (Worded word sign) r) : Pieced (Worded word sign) (v ++ h :: r) := by
  cases later with
  | code here => exact .code (first.append_cons mark allowed here)
  | @string c q t here quoted later =>
    have regroup : v ++ h :: (c ++ (q ++ t)) = (v ++ h :: c) ++ (q ++ t) := by simp
    rw [regroup]
    exact .string (first.append_cons mark allowed here) quoted later

/-- Code stays code of its kind with strings in it, if every value is one or the other. -/
theorem pieced_of_replaceNames {names : List Text} {f : Text → Except Fault Text}
    (fine : ∀ n ∈ names, Term.isIdentifier n = true)
    (values : ∀ n v, f n = .ok v → Worded word sign v ∨ Item.IsString v) (empty : Worded word sign [])
    {t out back : Text} (h : Worded word sign t)
    (made : Substitution.replaceNames names f 0 back t = .ok out) :
    Pieced (Worded word sign) out := by
  -- what comes in for a word
  have place {back w v rest : Text} (here : Worded word sign w)
      (filled : (Substitution.nameAt? names back (w ++ rest)).elim (.ok w) f = .ok v) :
      Worded word sign v ∨ Item.IsString v := by
    cases found : Substitution.nameAt? names back (w ++ rest) with
    | none =>
      rw [found] at filled
      cases filled
      exact .inl here
    | some n =>
      rw [found] at filled
      exact values n v filled
  induction h generalizing out back with
  | @last w letters fits =>
    rw [← List.append_nil w, Substitution.replaceNames_word fine letters stops_nil,
      Substitution.replaceNames_nil fine] at made
    obtain ⟨v, filled, made⟩ := ok_of_bind made
    cases made
    rcases place (.last letters fits) filled with code | quoted
    · rw [List.append_nil]
      exact .code code
    · exact .string (c := []) empty quoted (.code empty)
  | @cons w t h letters fits mark allowed _ ih =>
    rw [Substitution.replaceNames_word fine letters (stops_cons.mpr mark),
      Substitution.replaceNames_cons fine mark] at made
    obtain ⟨v, filled, made⟩ := ok_of_bind made
    obtain ⟨u, made', same⟩ := ok_of_bind made
    obtain ⟨r, later, same'⟩ := ok_of_bind made'
    cases same
    cases same'
    rcases place (.last letters fits) filled with code | quoted
    · exact .append_cons code mark allowed (ih later)
    · have rest : Pieced (Worded word sign) ([] ++ h :: r) := .append_cons empty mark allowed (ih later)
      exact .string (c := []) empty quoted rest

end Kinds

theorem loose_of_letters {t : Text}
    (h : ∀ c ∈ t, Vocabulary.isSoft c = true ∧ looseLetter c ≠ 'a' ∧ looseLetter c ≠ 'o') :
    Vocabulary.Loose t := by
  have word {w : Text} (plain : ∀ c ∈ w, looseLetter c ≠ 'a' ∧ looseLetter c ≠ 'o') (j : Junction) :
      w.map looseLetter ≠ j.keyword := by
    intro spelled
    cases w with
    | nil => cases j <;> cases spelled
    | cons c w =>
      obtain ⟨first, second⟩ := plain c List.mem_cons_self
      cases j with
      | and => exact first (List.cons.inj spelled).1
      | or => exact second (List.cons.inj spelled).1
  induction t using words_induction with
  | last w letters => exact .last letters (word fun c mem => (h c mem).2)
  | cons w k t letters mark ih =>
    have later : ∀ c ∈ t, _ := fun c mem => h c (by simp [mem])
    exact .cons letters (word fun c mem => (h c (by simp [mem])).2) mark (h k (by simp)).1 (ih later)

theorem loose_nil : Vocabulary.Loose [] := loose_of_letters (by simp)

theorem Environment.loose_source (env : Environment) {n v : Text} (h : env.source n = .ok v) :
    Vocabulary.Loose v ∨ Item.IsString v := by
  have numeral {t : Text} (steady : Decimal.steady false t = true) : Vocabulary.Loose t := by
    refine loose_of_letters fun c mem => ?_
    have char := Decimal.isDecimalChar_of_steady steady c mem
    simp only [Decimal.isDecimalChar, Bool.or_eq_true, beq_iff_eq] at char
    rcases char with (((digit | rfl) | rfl) | rfl) | rfl
    · have := forall_digit (P := fun c => Vocabulary.isSoft c && looseLetter c != 'a' && looseLetter c != 'o')
        (by decide) digit
      simpa [and_assoc] using this
    all_goals decide
  rw [source] at h
  split at h
  · rcases Value.source_cases h with constant | ⟨-, steady⟩ | ⟨u, rfl⟩
    · left
      have single {t : Text} (letters : ∀ c ∈ t, isWord c = true) (other : t.map looseLetter ≠ "and".toText ∧
          t.map looseLetter ≠ "or".toText) : Vocabulary.Loose t :=
        .last letters fun j => by
          cases j with
          | and => exact other.1
          | or => exact other.2
      simp only [Value.constantSources, List.map_cons, List.map_nil, List.mem_cons,
        List.not_mem_nil, or_false] at constant
      rcases constant with rfl | rfl | rfl | rfl | rfl | rfl
      · exact single (by decide) (by decide)
      · exact single (by decide) (by decide)
      · exact single (by decide) (by decide)
      · exact single (by decide) (by decide)
      · exact single (by decide) (by decide)
      · have rest : Vocabulary.Loose "Infinity".toText := single (by decide) (by decide)
        exact .cons (w := []) (by simp) (fun j => by cases j <;> decide) (by decide) (by decide) rest
    · exact .inl (numeral steady)
    · exact .inr (isString_quotedSource u)
  · cases h
    exact .inl (numeral (by decide))

/-! ## Ends of texts -/

namespace Substitution

variable {names : List Text} {f : Text → Except Fault Text} (fine : ∀ n ∈ names, Term.isIdentifier n = true)
include fine

theorem stops_of_replaceNames {back y b : Text} (stop : Stops isWord y)
    (made : replaceNames names f 0 back y = .ok b) :
    Stops isWord b := by
  cases y with
  | nil =>
    rw [replaceNames_nil fine] at made
    cases made
    exact stops_nil
  | cons h y =>
    rw [stops_cons] at stop
    rw [replaceNames_cons fine stop] at made
    obtain ⟨r, -, same⟩ := ok_of_bind made
    cases same
    exact stops_cons.mpr stop

theorem stops_reverse_of_replaceNames {back x a : Text} (stop : Stops isWord x.reverse)
    (made : replaceNames names f 0 back x = .ok a) : Stops isWord a.reverse := by
  induction x using words_induction generalizing back a with
  | last w letters =>
    obtain rfl := eq_nil_of_stops letters stop
    rw [replaceNames_nil fine] at made
    cases made
    exact stops_nil
  | cons w h t letters mark ih =>
    rw [List.reverse_append, List.reverse_cons, List.append_assoc] at stop
    rw [replaceNames_word fine letters (stops_cons.mpr mark), replaceNames_cons fine mark] at made
    obtain ⟨v, -, made⟩ := ok_of_bind made
    obtain ⟨u, made', same⟩ := ok_of_bind made
    obtain ⟨r, later, same'⟩ := ok_of_bind made'
    cases same
    cases same'
    have rest := ih stop.of_append later
    rw [List.reverse_append, List.reverse_cons, List.append_assoc]
    cases r using List.reverseRecOn with
    | nil => exact stops_cons.mpr mark
    | append_singleton r c => exact rest.append (by simp)

end Substitution

/-! ## Texts read into tokens -/

namespace Environment

/-- Whether the bound names are identifiers and no words that join. -/
def WellNamed (env : Environment) : Prop :=
  ∀ n ∈ env.names, Term.isIdentifier n = true ∧ ∀ j : Junction, n.map looseLetter ≠ j.keyword

/-- The shapes of the tokens that a text is evaluated from. -/
def read (env : Environment) (t : Text) : Option (List (TokenKind × Text)) :=
  (env.substitute t).toOption.bind fun u => Token.shapes (Vocabulary.symbolize u)

variable {env : Environment} {x m y t u : Text}

theorem read_of_ok (made : env.substitute t = .ok u) :
    env.read t = Token.shapes (Vocabulary.symbolize u) := by
  rw [read, made, Except.toOption, Option.bind_some]

theorem read_of_error {fault : Fault} (failed : env.substitute t = .error fault) : env.read t = none := by
  rw [read, failed, Except.toOption, Option.bind_none]

theorem substitute_of_unquoted (env : Environment) (plain : Unquoted t) :
    env.substitute t = Substitution.replaceNames env.names env.source 0 [] t := by
  have double : .char '"' ∉ t := fun mem => absurd (plain _ mem) (by decide)
  rw [substitute_eq_mapCodeM env double, Vocabulary.ofText_unquoted plain, Alternation.mapCodeM]
  cases Substitution.replaceNames env.names env.source 0 [] t with
  | error fault => rfl
  | ok a => simp [Except.map, pure, Except.pure, Alternation.text]

theorem WellNamed.identifiers (named : env.WellNamed) : ∀ n ∈ env.names, Term.isIdentifier n = true :=
  fun n mem => (named n mem).1

/-- The strings of a text without quotes are complete once its names are replaced. -/
theorem pieced_of_substitute (named : env.WellNamed) (plain : Unquoted t) (made : env.substitute t = .ok u) :
    Pieced Unquoted u := by
  have kind {v : Text} (plain : Unquoted v) : Worded (fun _ => True) (Term.isQuotable · = true) v :=
    worded_of_signs fun c mem _ => plain c mem
  rw [substitute_of_unquoted env plain] at made
  have values (n v : Text) (h : env.source n = .ok v) :
      Worded (fun _ => True) (Term.isQuotable · = true) v ∨ Item.IsString v :=
    (env.loose_source h).imp_left fun loose => kind (Vocabulary.unquoted_of_loose loose)
  refine (pieced_of_replaceNames named.identifiers values (kind unquoted_nil) (kind plain) made).mono ?_
  exact fun c code => code.forall_mem (fun _ => Term.isQuotable_of_isWord) fun _ => id

/-- Code without marks has none once its names are replaced. -/
theorem loose_of_substitute (named : env.WellNamed) (loose : Vocabulary.Loose t)
    (made : env.substitute t = .ok u) :
    Pieced Vocabulary.Loose u := by
  rw [substitute_of_unquoted env (Vocabulary.unquoted_of_loose loose)] at made
  exact pieced_of_replaceNames named.identifiers (fun _ _ h => env.loose_source h) loose_nil loose made

/-- A text is read into the tokens before its first sign, the sign, and the tokens behind it. -/
theorem read_sign (named : env.WellNamed) {s : Sign} (loose : Vocabulary.Loose x) (plain : Unquoted y)
    (stands : s.Stands x m y) :
    env.read (x ++ (m ++ y)) = (env.read x).bind fun a => (env.read y).map fun b =>
      a ++ (.op, s.text) :: b := by
  have front := Vocabulary.unquoted_of_loose loose
  have whole : Unquoted (x ++ (m ++ y)) := front.append (Unquoted.append stands.isQuotable plain)
  have split := Substitution.replaceNames_sign (f := env.source) named.identifiers
    (fun n mem => (named n mem).2) stands
  rw [← substitute_of_unquoted env whole, ← substitute_of_unquoted env front,
    ← substitute_of_unquoted env plain] at split
  cases first : env.substitute x with
  | error fault =>
    have failed : env.substitute (x ++ (m ++ y)) = .error fault := by rw [split, first, error_bind]
    rw [read_of_error failed, read_of_error first, Option.bind_none]
  | ok a =>
    cases second : env.substitute y with
    | error fault =>
      have failed : env.substitute (x ++ (m ++ y)) = .error fault := by
        rw [split, first, second, ok_bind, error_bind]
      rw [read_of_error failed, read_of_error second]
      cases env.read x <;> rfl
    | ok b =>
      have filled : env.substitute (x ++ (m ++ y)) = .ok (a ++ (m ++ b)) := by
        rw [split, first, second, ok_bind, ok_bind]
        rfl
      have apart : s.Stands a m b := by
        rw [substitute_of_unquoted env front] at first
        rw [substitute_of_unquoted env plain] at second
        cases s with
        | opening => exact stands
        | closing => exact stands
        | junction j =>
          obtain ⟨spelled, before, behind⟩ := stands
          exact ⟨spelled, Substitution.stops_reverse_of_replaceNames named.identifiers before first,
            Substitution.stops_of_replaceNames named.identifiers behind second⟩
      have bare := Vocabulary.barless_symbolize (loose_of_substitute named loose first)
      rw [read_of_ok filled, read_of_ok first, read_of_ok second, Vocabulary.symbolize_sign
        (pieced_of_substitute named front first) (pieced_of_substitute named plain second) apart,
        Token.shapes_append_sign bare s.text_mem]

theorem read_nil (named : env.WellNamed) : env.read [] = some [] := by
  have plain : Unquoted [] := by simp [Unquoted]
  have made : env.substitute [] = .ok [] := by
    rw [substitute_of_unquoted env plain, Substitution.replaceNames_nil named.identifiers]
  have nothing : Vocabulary.symbolize [] = [] := by
    rw [Vocabulary.symbolize_code plain]
    exact Vocabulary.inTurn_nil _
  rw [read_of_ok made, nothing, Token.shapes_nil]

/-- Code without marks is read into tokens that neither join nor nest. -/
theorem flat_of_read (named : env.WellNamed) (loose : Vocabulary.Loose t) {a : List (TokenKind × Text)}
    (made : env.read t = some a) : ∀ s ∈ a, Grammar.marks.delta s = 0 ∧ Grammar.marks.junction? s = none := by
  cases filled : env.substitute t with
  | error fault =>
    rw [read_of_error filled] at made
    cases made
  | ok u =>
    rw [read_of_ok filled] at made
    exact Token.flat_of_shapes (Vocabulary.barless_symbolize (loose_of_substitute named loose filled)) made

/-! ### Blanks -/

theorem blank_apart {b : CodePoint} (blank : isBlank b = true) :
    isWord b = false ∧ (b ≠ '.' ∧ b ≠ '#') ∧ Term.isQuotable b = true := by
  have touch := forall_blank (P := fun c => c != '.' && c != '#') (by decide) blank
  simp only [Bool.and_eq_true, bne_iff_ne] at touch
  exact ⟨isWord_of_isBlank blank, touch, isQuotable_of_isBlank blank⟩

theorem read_cons (named : env.WellNamed) {b : CodePoint} (blank : isBlank b = true) (plain : Unquoted t) :
    env.read (b :: t) = env.read t := by
  obtain ⟨mark, touch, visible⟩ := blank_apart blank
  have more : Unquoted (b :: t) := List.forall_mem_cons.mpr ⟨visible, plain⟩
  have split := Substitution.replaceNames_append_cons (f := env.source) named.identifiers mark touch [] t
  rw [Substitution.replaceNames_nil named.identifiers, List.nil_append, ← substitute_of_unquoted env more,
    ← substitute_of_unquoted env plain] at split
  cases made : env.substitute t with
  | error fault =>
    have failed : env.substitute (b :: t) = .error fault := by rw [split, made, ok_bind, error_bind]
    rw [read_of_error failed, read_of_error made]
  | ok u =>
    have filled : env.substitute (b :: t) = .ok (b :: u) := by
      rw [split, made, ok_bind, ok_bind]
      rfl
    rw [read_of_ok filled, read_of_ok made,
      Vocabulary.symbolize_cons blank (pieced_of_substitute named plain made),
      Token.shapes_cons_blank blank]

theorem read_append (named : env.WellNamed) {b : CodePoint} (blank : isBlank b = true)
    (loose : Vocabulary.Loose t) :
    env.read (t ++ [b]) = env.read t := by
  obtain ⟨mark, touch, visible⟩ := blank_apart blank
  have plain := Vocabulary.unquoted_of_loose loose
  have more : Unquoted (t ++ [b]) := plain.concat visible
  have split := Substitution.replaceNames_append_cons (f := env.source) named.identifiers mark touch t []
  rw [Substitution.replaceNames_nil named.identifiers, ← substitute_of_unquoted env more,
    ← substitute_of_unquoted env plain] at split
  cases made : env.substitute t with
  | error fault =>
    have failed : env.substitute (t ++ [b]) = .error fault := by rw [split, made, error_bind]
    rw [read_of_error failed, read_of_error made]
  | ok u =>
    have filled : env.substitute (t ++ [b]) = .ok (u ++ [b]) := by
      rw [split, made, ok_bind, ok_bind]
      rfl
    have bare := Vocabulary.barless_symbolize (loose_of_substitute named loose made)
    rw [read_of_ok filled, read_of_ok made]
    rcases Vocabulary.symbolize_append blank (pieced_of_substitute named plain made) with same | same
    · rw [same, Token.shapes_append_blank bare blank]
    · rw [same]

/-! ### Values -/

theorem shapes_eq_some_iff {a : List (TokenKind × Text)} :
    Token.shapes t = some a ↔ ∃ tokens, Token.scan t = .ok tokens ∧ tokens.map Token.shape = a := by
  rw [Token.shapes]
  cases Token.scan t with
  | error fault => simp [Except.toOption]
  | ok tokens => simp [Except.toOption]

theorem evaluate_of_read {tokens : List Token} {v : Value} (made : env.read t = some (tokens.map Token.shape))
    (worth : Grammar.Worth env tokens v) : env.evaluate t = v := by
  obtain ⟨e, derived, value, -⟩ := worth
  cases filled : env.substitute t with
  | error fault =>
    rw [read_of_error filled] at made
    cases made
  | ok u =>
    rw [read_of_ok filled] at made
    obtain ⟨tokens', scanned, same⟩ := shapes_eq_some_iff.mp made
    have derived' := derived.of_shape same
    have parsed : Expr.parse (Vocabulary.symbolize u) = .ok e := by
      rw [Expr.parse, scanned]
      cases tokens' with
      | nil =>
        obtain ⟨token, rest, nothing, -⟩ := Grammar.exists_cons_of_derives derived'
        cases nothing
      | cons token rest => exact Grammar.ofTokens_of_derives derived'
    rw [evaluate, trace, filled]
    simp only [parsed, ok_bind, value, Trace.value]

theorem exists_worth (present : env.evaluate t ≠ .none) :
    ∃ tokens, env.read t = some (tokens.map Token.shape) ∧ Grammar.Worth env tokens (env.evaluate t) := by
  cases filled : env.substitute t with
  | error fault =>
    rw [evaluate, trace, filled] at present
    exact absurd rfl present
  | ok u =>
    have result : env.evaluate t = (⟨some u, some (Vocabulary.symbolize u),
        do (← Expr.parse (Vocabulary.symbolize u)).eval env⟩ : Trace).value := by rw [evaluate, trace, filled]
    cases made : (do (← Expr.parse (Vocabulary.symbolize u)).eval env) with
    | error fault =>
      rw [result, made] at present
      exact absurd rfl present
    | ok v =>
      have valued : env.evaluate t = v := by rw [result, made]; rfl
      obtain ⟨e, parsed, value⟩ := ok_of_bind made
      rw [Expr.parse] at parsed
      split at parsed
      · cases parsed
      · cases parsed
      · next tokens _ scanned =>
        refine ⟨tokens, ?_, e, Grammar.derives_of_ofTokens parsed, valued ▸ value, present⟩
        rw [read_of_ok filled]
        exact shapes_eq_some_iff.mpr ⟨tokens, scanned, rfl⟩

end Environment
end SclNarrator

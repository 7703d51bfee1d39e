import SclNarrator.Expr.Evaluate
import SclNarrator.Proofs.Expr.Splicing
import SclNarrator.Proofs.Run.Environment
import SclNarrator.Proofs.Run.Seeding

/-!
The value of an expression does not depend on a name that it does not mention. Two environments are
alike but for a name if they have the same entries under other keys, in the same order (`Alike`). No
name that stands in a text without the name is a spelling of it, so the same names are replaced by
the same values (`substitute_eq`); and no variable of what results is a spelling of it either
(`lookupKey_ne_of_parse`).
-/

namespace SclNarrator

/-- Whether no word in a text is a spelling of a name, given by its folded form. -/
def Free (n t : Text) : Prop :=
  ∀ w : Text, w <:+: t → (∀ c ∈ w, isWord c = true) → w.head?.any isNameStart = true → w.fold ≠ n

theorem Free.of_part {n t u : Text} (h : Free n t) (part : u <:+: t) : Free n u :=
  fun w inside => h w (inside.trans part)

theorem Free.fold_ne {n t w : Text} (h : Free n t) (part : w <:+: t)
    (identifier : Term.isIdentifier w = true) :
    w.fold ≠ n := by
  refine h w part (Term.isWord_of_isIdentifier identifier) ?_
  cases w with
  | nil => cases identifier
  | cons c w =>
    rw [Term.isIdentifier, Bool.and_eq_true] at identifier
    exact identifier.1

/-! ## Environments that are alike -/

namespace Environment

variable {n : Text} {env env' : Environment}

/-- Whether the entries of an environment stand under their folded names, which are identifiers, and what
stands under one key comes from the snapshot. -/
structure Tidy (n : Text) (env : Environment) : Prop where
  key : ∀ e ∈ env.entries, e.1 = e.2.name.fold
  identifier : ∀ e ∈ env.entries, Term.isIdentifier e.2.name = true
  origin : ∀ e ∈ env.entries, e.1 = n → e.2.origin = .cache

/-- Whether two environments differ under one key at most, where nothing was assigned. -/
structure Alike (n : Text) (env env' : Environment) : Prop where
  others : env.others n = env'.others n
  left : env.Tidy n
  right : env'.Tidy n

namespace Alike

theorem symm (h : Alike n env env') : Alike n env' env := ⟨h.others.symm, h.right, h.left⟩

theorem entries_lookup (h : Alike n env env') {key : Text} (other : key ≠ n) :
    env.entries.lookup key = env'.entries.lookup key := by
  rw [← lookup_others other env, h.others, lookup_others other env']

theorem lookup (h : Alike n env env') {name : Text} (other : lookupKey name ≠ n) :
    env.lookup name = env'.lookup name := h.entries_lookup other

/-- Both environments bind the same names, spellings of the one apart. -/
theorem mem_names (h : Alike n env env') {name : Text} (other : name.fold ≠ n) (mem : name ∈ env.names) :
    name ∈ env'.names := by
  obtain ⟨b, bound, rfl⟩ := Environment.mem_names.mp mem
  obtain ⟨e, entry, rfl⟩ := List.mem_map.mp bound
  have kept : e ∈ env.others n := by
    refine List.mem_filter.mpr ⟨entry, ?_⟩
    rw [bne_iff_ne, h.left.key e entry]
    exact other
  rw [h.others] at kept
  exact Environment.mem_names.mpr ⟨e.2, List.mem_map_of_mem (List.mem_filter.mp kept).1, rfl⟩

end Alike

theorem Tidy.isIdentifier (h : env.Tidy n) : ∀ name ∈ env.names, Term.isIdentifier name = true := by
  intro name mem
  obtain ⟨b, bound, rfl⟩ := mem_names.mp mem
  obtain ⟨e, entry, rfl⟩ := List.mem_map.mp bound
  exact h.identifier e entry

end Environment

/-! ## The same names are replaced -/

namespace Substitution

variable {names names' : List Text} {f f' : Text → Except Fault Text}

variable {n : Text} (fine : ∀ n ∈ names, Term.isIdentifier n = true)
  (fine' : ∀ n ∈ names', Term.isIdentifier n = true)
  (same : ∀ w, Term.isIdentifier w = true → w.fold ≠ n → (w ∈ names ↔ w ∈ names') ∧ f w = f' w)
include fine fine' same

theorem nameAt?_eq (back : Text) {t : Text} (free : Free n t) :
    nameAt? names back t = nameAt? names' back t := by
  ext w
  rw [nameAt?_eq_some_iff fine, nameAt?_eq_some_iff fine']
  constructor
  · rintro ⟨mem, starts, after, rfl, allows⟩
    have other := free.fold_ne (List.infix_append [] w after) (fine w mem)
    exact ⟨(same w (fine w mem) other).1.mp mem, starts, after, rfl, allows⟩
  · rintro ⟨mem, starts, after, rfl, allows⟩
    have other := free.fold_ne (List.infix_append [] w after) (fine' w mem)
    exact ⟨(same w (fine' w mem) other).1.mpr mem, starts, after, rfl, allows⟩

theorem replaceNames_eq (skip : Nat) (back : Text) {t : Text} (free : Free n t) :
    replaceNames names f skip back t = replaceNames names' f' skip back t := by
  refine replaceNames_congr (fun back u part => nameAt?_eq fine fine' same back (free.of_part part.isInfix))
    (fun back u w part found => ?_) skip back
  obtain ⟨mem, after, rfl, -⟩ := exists_of_nameAt? found
  have other := (free.of_part part.isInfix).fold_ne (List.infix_append [] w after) (fine w mem)
  exact (same w (fine w mem) other).2

end Substitution

namespace Alternation

theorem infix_of_mem_codes {t u : Text} (h : u ∈ (ofText t).codes) : u <:+: t := by
  have inside (a : Alternation) (mem : u ∈ a.codes) : u <:+: a.text := by
    obtain ⟨first, rest⟩ := a
    rcases List.mem_cons.mp mem with rfl | mem
    · exact ⟨[], _, rfl⟩
    · obtain ⟨part, among, rfl⟩ := List.mem_map.mp mem
      obtain ⟨front, back, rfl⟩ := List.append_of_mem among
      exact ⟨first ++ (text ⟨[], front⟩ ++ part.1), text ⟨[], back⟩, by simp [text]⟩
  have part := inside (ofText t) h
  rwa [text_ofText] at part

theorem mapCodeM_congr {f g : Text → Except Fault Text} {a : Alternation} (same : ∀ u ∈ a.codes, f u = g u) :
    a.mapCodeM f = a.mapCodeM g := by
  obtain ⟨here, later⟩ := List.forall_mem_cons.mp same
  rw [mapCodeM, mapCodeM, here]
  refine congrArg _ (funext fun first => ?_)
  rw [mapM_congr]
  rintro ⟨literal, code⟩ mem
  have code' : f code = g code := later code (List.mem_map_of_mem (f := Prod.snd) mem)
  simp only [code']

end Alternation

namespace Environment

variable {n : Text} {env env' : Environment}

/-- In an expression without double quotes the bound names between its strings are replaced, also where
there are none. -/
theorem substitute_eq_mapCodeM (env : Environment) {e : Text} (double : .char '"' ∉ e) :
    env.substitute e =
      ((Alternation.ofText e).mapCodeM (Substitution.replaceNames env.names env.source 0 [])).map
        Alternation.text := by
  have quoted : Substitution.replaceAllM quotedName env.source e = .ok e := by
    refine Substitution.replaceAllM_of_none _ fun x y whole _ => ?_
    exact Substitution.quotedName_of_not_mem fun mem => double (whole ▸ List.mem_append_right x mem)
  rw [substitute, quoted, ok_bind]
  split
  · next empty =>
    have misses (x y : Text) : Substitution.nameAt? [] x y = none := by simp [Substitution.nameAt?]
    have kept (t : Text) : Substitution.replaceNames [] env.source 0 [] t = .ok (id t) := by
      have later : Substitution.replaceNames [] env.source 0 (t.reverse ++ []) [] = .ok [] := by
        rw [Substitution.replaceNames, misses]
      have whole := Substitution.replaceNames_of_none (fun x y _ _ => misses _ _) later
      simpa using whole
    rw [empty, Alternation.mapCodeM_congr fun u _ => kept u, Alternation.mapCodeM_ok]
    have same : (Alternation.ofText e).mapCode id = Alternation.ofText e := by simp [Alternation.mapCode]
    rw [same, Except.map, Alternation.text_ofText]
    rfl
  · cases (Alternation.ofText e).mapCodeM (Substitution.replaceNames env.names env.source 0 []) <;> rfl

theorem Alike.source_eq (alike : Alike n env env') {w : Text} (other : lookupKey w ≠ n) :
    env.source w = env'.source w := by
  rw [source, source, alike.lookup other]

theorem lookupKey_of_start {w : Text} (start : w.head?.any isNameStart = true) : lookupKey w = w.fold := by
  refine lookupKey_of_head? fun mark => ?_
  rw [mark] at start
  cases start

theorem lookupKey_of_isIdentifier {w : Text} (identifier : Term.isIdentifier w = true) :
    lookupKey w = w.fold := by
  cases w with
  | nil => cases identifier
  | cons c w =>
    rw [Term.isIdentifier, Bool.and_eq_true] at identifier
    exact lookupKey_of_start identifier.1

/-- An expression that does not mention a name has its names replaced alike. -/
theorem Alike.substitute_eq (alike : Alike n env env') {e : Text} (double : .char '"' ∉ e) (free : Free n e) :
    env.substitute e = env'.substitute e := by
  rw [substitute_eq_mapCodeM env double, substitute_eq_mapCodeM env' double]
  refine congrArg _ (Alternation.mapCodeM_congr fun u mem => ?_)
  refine Substitution.replaceNames_eq alike.left.isIdentifier alike.right.isIdentifier
    (fun w identifier other => ⟨⟨alike.mem_names other, alike.symm.mem_names other⟩, alike.source_eq ?_⟩) 0 []
    (free.of_part (Alternation.infix_of_mem_codes mem))
  rwa [lookupKey_of_isIdentifier identifier]

/-! ## The same variables are looked up -/

theorem mem_lookupKey_point {name : Text} (point : .char '.' ∈ name) : .char '.' ∈ lookupKey name := by
  have kept : .char '.' ∈ Text.dropLeading '#' name := by
    rw [← List.takeWhile_append_dropWhile (p := (· == .char '#')) (l := name), List.mem_append] at point
    exact point.resolve_left fun mark => absurd (List.mem_takeWhile_imp mark) (by decide)
  exact List.mem_flatMap.mpr ⟨_, kept, by decide⟩

theorem not_spare {name : Text} (start : name.head?.any isNameStart = true)
    (free : Token.constant? name = none) :
    ¬Spare name := by
  cases name with
  | nil => cases start
  | cons c name =>
    have letter : isNameStart c = true := start
    have digit : c.isDigit = false := Bool.eq_false_iff.mpr fun digit => by
      rw [isNameStart_of_isDigit digit] at letter
      cases letter
    simp [Spare, isSpare, free, digit]

theorem isSymbol_or_quoted_of_source (env : Environment) {m m' : Text} (h : env.source m = .ok m') :
    IsSymbol m' ∨ ∃ u, m' = Value.quotedSource u := by
  unfold source at h
  split at h
  · exact Value.isSymbol_or_quoted h
  · cases h
    exact .inl ⟨by decide, by decide, by decide, by decide⟩

/-- No variable of an expression, once its names are replaced, is a spelling of a name that it does not
mention. -/
theorem lookupKey_ne_of_parse (tidy : env.Tidy n) {e s : Text} {tree : Expr} (point : .char '.' ∉ n)
    (double : .char '"' ∉ e) (paired : e.count (.char '\'') % 2 = 0 ∨ Unescaped e) (free : Free n e)
    (made : env.substitute e = .ok s) (parsed : Expr.parse (Vocabulary.symbolize s) = .ok tree) :
    ∀ name ∈ tree.names, lookupKey name ≠ n := by
  intro name mem
  by_cases member : .char '.' ∈ name
  · rintro rfl
    exact point (mem_lookupKey_point member)
  obtain ⟨code, met⟩ := mem_spoken_of_parse parsed
  obtain ⟨word, start, constant⟩ := met name mem member
  have other := not_spare start constant
  -- the word is one of the text before operator words gave way, and of the text before names did
  have symbols := reads_symbolize s {} {} rfl rfl (.refl _)
  rw [substitute_eq_mapCodeM env double] at made
  obtain ⟨parts, filled, rfl⟩ := ok_of_map made
  have spliced := covers_of_spliced tidy.isIdentifier
    (fun _ _ => isSymbol_or_quoted_of_source env) double paired
    filled (symbols.quoting ▸ code)
  have word := (symbols.spoken name word).resolve_right other
  have word := (spliced.spoken name word).resolve_right other
  obtain ⟨part, words⟩ := Reader.infix_of_mem_spoken word
  rw [lookupKey_of_start start]
  exact free name part words start

/-- **An expression has the same value in environments that are alike but for a name that it does not
mention.** -/
theorem Alike.evaluate_eq (alike : Alike n env env') {e : Text} (point : .char '.' ∉ n)
    (double : .char '"' ∉ e)
    (paired : e.count (.char '\'') % 2 = 0 ∨ Unescaped e) (free : Free n e) :
    env.evaluate e = env'.evaluate e := by
  rw [evaluate, evaluate, trace, trace, ← alike.substitute_eq double free]
  cases made : env.substitute e with
  | error fault => rfl
  | ok s =>
    simp only [Trace.value]
    cases parsed : Expr.parse (Vocabulary.symbolize s) with
    | error fault => rfl
    | ok tree =>
      have others := lookupKey_ne_of_parse alike.left point double paired free made parsed
      rw [ok_bind, ok_bind, Expr.eval_congr tree fun name mem => alike.lookup (others name mem)]

-- an apostrophe without a partner and a backslash behind it turn the text of a name into an expression,
-- and that one mentions another name
example : evaluate ⟨[("ab".toText, ⟨"AB".toText, .bool true, [], .cache⟩),
      ("a".toText, ⟨"A".toText, .text "' == 'x' || AB || 'a' == ".toText, [], .cache⟩),
      ("b".toText, ⟨"B".toText, .text "c".toText, [], .cache⟩)]⟩ "' A \\B".toText = .bool true := by
  rw [evaluate, trace, substitute, names, List.mergeSort_of_pairwise (by decide +kernel)]
  decide +kernel

end Environment
end SclNarrator

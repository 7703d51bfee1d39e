import SclNarrator.Proofs.Program.Assignments
import SclNarrator.Proofs.Program.Enclosed
import SclNarrator.Proofs.Run.Environment
import SclNarrator.Run.Execute

/-!
What an assignment to a reference writes. A reference is the name of a tag in double quotes, or a name
with members. The pattern for assignments has no boundary on its left: it takes the longest end of the
reference that is a plain identifier (`target`), wherever that starts.

What is proved:
  1. at most one assignment is found, to that end (`assignments_assign`);
  2. other bindings are safe just if the end is another spelling of the whole name
     (`keepsOthers_iff`).

Correspondence (analyzer ↔ here):
  `_ASSIGN_RE`    ↔ `Source.assignment`, `Source.target?`
  `bind_computed` ↔ `Environment.bind`
-/

namespace SclNarrator

theorem Run.others_assign (run : Run) (a : Source.Assignment) :
    (run.assign a).1.env.others a.target.fold = run.env.others a.target.fold := by
  rcases run.assign_cases a with ⟨kept, -⟩ | ⟨bound, -⟩
  · rw [kept]
  · exact Environment.others_bind bound

namespace Program

open Source (assignment topLevel call)
open Text (Misses)

/-! ## References -/

/-- Whether a text can stand between double quotes as the name of a tag. -/
def isTagName (t : Text) : Bool :=
  !t.isEmpty && t.all fun c => c != '"' && c != '\'' && c != '\n' && c != ':'

/-- Whether a text is made of word characters and points. -/
def isDotted (t : Text) : Bool := !t.isEmpty && t.all fun c => isWord c || c == '.'

/-- What stands on the left of an assignment. -/
inductive Reference where
  | quoted (name : Text) (valid : isTagName name = true)
  | dotted (name : Text) (valid : isDotted name = true)

structure Whole where
  negative : Bool
  digits : Text
  ne_nil : digits ≠ []
  valid : digits.all CodePoint.isDigit = true

def Whole.text (k : Whole) : Text := if k.negative then .char '-' :: k.digits else k.digits

/-- The longest end of a text that is a plain identifier; nothing if no end is one. -/
def lastIdentifier : Text → Text
  | [] => []
  | c :: rest => if isIdentifier (c :: rest) then c :: rest else lastIdentifier rest

namespace Reference

def name : Reference → Text
  | quoted name _ => name
  | dotted name _ => name

def text : Reference → Text
  | quoted name _ => .char '"' :: (name ++ [.char '"'])
  | dotted name _ => name

def assign (r : Reference) (k : Whole) : Text := r.text ++ (" := ".toText ++ (k.text ++ ";".toText))

/-- What is left of the name when calls are taken out of the code. -/
def stripped : Reference → Text
  | quoted name _ => Source.stripCalls name
  | dotted name _ => name

/-- The name that an assignment to the reference binds: the longest end of what is left that is a plain
identifier, unless a parenthesis is open before it. -/
def target (r : Reference) : Option Text :=
  if lastIdentifier r.stripped = [] ∨ 0 < Source.parenBalance r.stripped then none
  else some (lastIdentifier r.stripped)

end Reference

/-! ## Taking out calls -/

theorem suffix_afterMembers (fuel : Nat) (t : Text) : Source.afterMembers fuel t <:+ t := by
  induction fuel generalizing t with
  | zero => exact List.suffix_rfl
  | succ fuel ih =>
    unfold Source.afterMembers
    split
    · next member =>
      split
      · next left part => exact ((ih left).trans (suffix_of_member part)).trans (List.suffix_cons _ _)
      · exact List.suffix_rfl
    · exact List.suffix_rfl

theorem suffix_of_afterInstance? {t rest : Text} (h : Source.afterInstance? t = some rest) :
    rest <:+ t := by
  unfold Source.afterInstance? at h
  obtain ⟨left, part, rfl⟩ := Option.map_eq_some_iff.mp h
  exact (suffix_afterMembers _ left).trans (suffix_of_first part)

theorem call_of_flat {back t : Text} (flat : .char '(' ∉ t) : call back t = none := by
  cases inst : Source.afterInstance? t with
  | none => exact call_of_no_instance inst
  | some rest =>
    refine call_of_no_paren inst fun opens => flat ?_
    have inside : rest.dropWhile isBlank <:+ t :=
      (List.dropWhile_suffix _).trans (suffix_of_afterInstance? inst)
    exact inside.subset (List.mem_of_mem_head? opens)

theorem keepNested_flat {back t : Text} (flat : .char '(' ∉ t) :
    (Text.cutFrom call 0 back t).flatMap Source.keepNested = t := by
  have misses : Misses call back t [] := by
    refine Text.misses_of_ends fun x y same _ => call_of_flat ?_
    rw [List.append_nil]
    exact fun mem => flat (same ▸ List.mem_append_right x mem)
  have := keepNested_misses misses
  rw [List.append_nil] at this
  simpa [Text.cutFrom] using this

namespace Whole

variable (k : Whole)

theorem mem_text {c : CodePoint} (h : c ∈ k.text) : c = '-' ∨ c.isDigit = true := by
  have digit (mem : c ∈ k.digits) : c.isDigit = true := List.all_eq_true.mp k.valid c mem
  rw [text] at h
  split at h
  · exact (List.mem_cons.mp h).imp id digit
  · exact .inr (digit h)

/-- What holds of the minus and the digits holds of every character of a whole number. -/
theorem forall_text {P : CodePoint → Bool} (minus : P '-' = true)
    (digits : (rangeMembers [(48, 57)]).all fun n => P (CodePoint.ofNat n)) :
    ∀ c ∈ k.text, P c = true := by
  intro c mem
  rcases k.mem_text mem with rfl | digit
  · exact minus
  · exact forall_digit digits digit

theorem trim_text : Text.trim (.char ' ' :: k.text) = k.text := by
  have solid : ∀ c ∈ k.text, isBlank c = false := fun c mem => by
    have := k.forall_text (P := fun c => !isBlank c) (by decide) (by decide) c mem
    simpa using this
  have blank : isBlank (.char ' ') = true := by decide
  rw [Text.trim, Text.trimLeft, List.dropWhile_cons_of_pos blank]
  exact Text.trim_of_visible solid

end Whole

/-- The number behind the `:=`, with the `;` that ends the statement. -/
def assigned (k : Whole) : Text := .char ' ' :: (k.text ++ [.char ';'])

/-- What stands behind a reference. -/
def assignEnd (k : Whole) : Text := .char ' ' :: .char ':' :: .char '=' :: assigned k

theorem not_mem_assignEnd (k : Whole) {c : CodePoint} (mark : c ∉ " :=;".toText) (minus : c ≠ '-')
    (digit : c.isDigit = false) : c ∉ assignEnd k := by
  intro mem
  have marks : c = ' ' ∨ c = ':' ∨ c = '=' ∨ c = ';' → False := by
    rintro (rfl | rfl | rfl | rfl) <;> exact mark (by decide)
  simp only [assignEnd, assigned, List.mem_cons, List.mem_append, List.not_mem_nil, or_false] at mem
  rcases mem with same | same | same | same | number | same
  · exact marks (.inl same)
  · exact marks (.inr (.inl same))
  · exact marks (.inr (.inr (.inl same)))
  · exact marks (.inl same)
  · rcases k.mem_text number with same | isDigit
    · exact minus same
    · rw [isDigit] at digit
      cases digit
  · exact marks (.inr (.inr (.inr same)))

namespace Reference

theorem assign_eq (r : Reference) (k : Whole) : r.assign k = r.text ++ assignEnd k := by
  rfl

theorem mem_tagName {name : Text} (valid : isTagName name = true) {c : CodePoint} (mem : c ∈ name) :
    c ≠ '"' ∧ c ≠ '\'' ∧ c ≠ ':' := by
  simp only [isTagName, Bool.and_eq_true, List.all_eq_true, bne_iff_ne] at valid
  obtain ⟨⟨⟨quote, apostrophe⟩, -⟩, colon⟩ := valid.2 c mem
  exact ⟨quote, apostrophe, colon⟩

theorem ne_nil_of_isTagName {name : Text} (valid : isTagName name = true) : name ≠ [] := by
  rintro rfl
  simp [isTagName] at valid

/-- The call that would start at the opening quote has no parenthesis behind the closing one. -/
theorem call_quoted {name back : Text} (valid : isTagName name = true) (k : Whole) :
    call back (.char '"' :: (name ++ .char '"' :: assignEnd k)) = none := by
  have all : ∀ c ∈ name, (c != .char '"') = true := fun c mem => by
    rw [bne_iff_ne]
    exact (mem_tagName valid mem).1
  have stop : Stops (· != .char '"') (.char '"' :: assignEnd k) := stops_cons.mpr (by decide)
  have quoted : Source.afterQuoted? (.char '"' :: (name ++ .char '"' :: assignEnd k)) =
      some (assignEnd k) := by
    simp only [Source.afterQuoted?, quotedName, takeWhile_append_of_stops all stop,
      dropWhile_append_of_stops all stop]
    obtain ⟨c, rest, rfl⟩ := List.exists_cons_of_ne_nil (ne_nil_of_isTagName valid)
    rfl
  have inst : Source.afterInstance? (.char '"' :: (name ++ .char '"' :: assignEnd k)) =
      some (assignEnd k) := by
    unfold Source.afterInstance?
    rw [quoted]
    exact congrArg some (afterMembers_of_stops (stops_cons.mpr (by decide)))
  refine call_of_no_paren inst fun opens => ?_
  have : .char '(' ∈ assignEnd k :=
    (List.dropWhile_suffix _).subset (List.mem_of_mem_head? opens)
  exact not_mem_assignEnd k (by decide) (by decide) (by decide) this

theorem stripCalls_assign (r : Reference) (k : Whole) :
    Source.stripCalls (r.assign k) =
      match r with
      | quoted name _ => .char '"' :: (Source.stripCalls name ++ .char '"' :: assignEnd k)
      | dotted name _ => name ++ assignEnd k := by
  have flat : .char '(' ∉ assignEnd k := not_mem_assignEnd k (by decide) (by decide) (by decide)
  rw [assign_eq]
  cases r with
  | dotted name valid =>
    refine keepNested_flat fun mem => ?_
    rcases List.mem_append.mp mem with inside | behind
    · simp only [isDotted, Bool.and_eq_true, List.all_eq_true] at valid
      have := valid.2 _ inside
      revert this
      decide
    · exact flat behind
  | quoted name valid =>
    have encloses : Encloses name '"' (assignEnd k) := by
      refine ⟨by decide, fun z suffix => ?_, fun closes => ?_⟩
      · refine quoted_of_not_mem (fun mem => (mem_tagName valid mem).1 rfl) ?_ suffix
        exact not_mem_assignEnd k (by decide) (by decide) (by decide)
      · have : .char ')' ∈ .char '"' :: assignEnd k :=
          (List.dropWhile_suffix _).subset (List.mem_of_mem_head? closes)
        rcases List.mem_cons.mp this with same | behind
        · cases same
        · exact not_mem_assignEnd k (by decide) (by decide) (by decide) behind
    have opening : Misses call [] [.char '"'] (name ++ .char '"' :: assignEnd k) :=
      ⟨call_quoted valid k, trivial⟩
    have text : (quoted name valid).text ++ assignEnd k =
        [.char '"'] ++ (name ++ .char '"' :: assignEnd k) := by simp [Reference.text]
    have rest : .char '(' ∉ .char '"' :: assignEnd k := by simp [flat]
    rw [Source.stripCalls, text, Text.cut, keepNested_misses opening,
      stripCalls_enclosed encloses (by decide), keepNested_flat rest]
    rfl

end Reference

/-! ## The target -/

/-- What is behind the name of a target: the `:=`, perhaps behind a double quote, and nothing that would
belong to the name. -/
structure IsArrow (b body : Text) : Prop where
  arrow : (Source.dropOne '"' b).dropWhile isBlank = .char ':' :: .char '=' :: body
  stop : Stops isNameChar b
  hash : b.head? ≠ some (.char '#')

/-- A text without a double quote that the `:=` does not follow at once, if some of its end is left. -/
structure IsApart (t b : Text) : Prop where
  quote : .char '"' ∉ t
  colon : ∀ z, z <:+ t → z ≠ [] → ((z ++ b).dropWhile isBlank).head? ≠ some (.char ':')

theorem IsApart.tail {c : CodePoint} {t b : Text} (h : IsApart (c :: t) b) : IsApart t b :=
  ⟨fun mem => h.quote (List.mem_cons_of_mem c mem),
    fun z suffix => h.colon z (suffix.trans (List.suffix_cons c t))⟩

theorem all_of_dropWhile_eq_nil {p : CodePoint → Bool} {t : Text} (h : t.dropWhile p = []) :
    t.all p = true :=
  List.all_eq_true.mpr (List.dropWhile_eq_nil_iff.mp h)

theorem identifier?_of_stops {b : Text} (stop : Stops isNameChar b) : Source.identifier? b = none := by
  cases b with
  | nil => rfl
  | cons c b =>
    rw [Source.identifier?, if_neg]
    intro start
    have := isNameChar_of_isNameStart start
    rw [stops_cons.mp stop] at this
    cases this

theorem IsArrow.stop_dropOne {b body : Text} (arrow : IsArrow b body) :
    Stops isNameChar (Source.dropOne '"' b) := by
  intro c mem
  rw [Bool.eq_false_iff]
  intro char
  have solid := isBlank_of_isWord (isWord_of_isNameChar char)
  have := arrow.arrow
  rw [dropWhile_of_stops (fun d mem' => by
    rw [Option.mem_def] at mem mem'
    rw [mem] at mem'
    cases mem'
    exact solid)] at this
  rw [this] at mem
  cases mem
  cases char

/-- The target at the start of a text is all of it up to the `:=`. -/
theorem target?_identifier {t b body : Text} (apart : IsApart t b) (arrow : IsArrow b body) :
    (match Source.identifier? (t ++ b) with
      | none => none
      | some (name, rest) =>
        match (Source.dropOne '"' rest).dropWhile isBlank with
        | .char ':' :: .char '=' :: body => some (name, body)
        | _ => none) = if isIdentifier t then some (t, body) else none := by
  cases t with
  | nil =>
    rw [List.nil_append, identifier?_of_stops arrow.stop]
    rfl
  | cons c t =>
    rw [List.cons_append, Source.identifier?, isIdentifier]
    by_cases start : isNameStart c
    · rw [if_pos start]
      simp only [takeWhile_append_stops t arrow.stop, dropWhile_append_stops t arrow.stop, start,
        Bool.true_and]
      cases left : t.dropWhile isNameChar with
      | nil =>
        have all := all_of_dropWhile_eq_nil left
        have whole : t.takeWhile isNameChar = t := by
          rw [List.takeWhile_eq_self_iff]
          exact List.all_eq_true.mp all
        simp only [List.nil_append, arrow.arrow, whole, all, if_true]
      | cons d z =>
        -- the name is over before the text is, so something else comes before the `:=`
        have suffix : d :: z <:+ c :: t := left ▸ (List.dropWhile_suffix _).trans (List.suffix_cons c t)
        have noQuote : d ≠ '"' := by
          rintro rfl
          exact apart.quote (suffix.subset List.mem_cons_self)
        have colon := apart.colon _ suffix (List.cons_ne_nil _ _)
        have short : t.all isNameChar = false := by
          rw [Bool.eq_false_iff]
          intro all
          rw [List.dropWhile_eq_nil_iff.mpr (List.all_eq_true.mp all)] at left
          cases left
        rw [List.cons_append] at colon ⊢
        rw [dropOne_of_head (by simpa using noQuote), short]
        simp only [Bool.false_eq_true, if_false]
        split
        · next same =>
          rw [same] at colon
          simp at colon
        · rfl
    · rw [if_neg start]
      simp [start]

theorem target?_append {t b body : Text} (apart : IsApart t b) (arrow : IsArrow b body) :
    Source.target? (t ++ b) =
      if isIdentifier (Source.dropOne '#' t) then some (Source.dropOne '#' t, body) else none := by
  have inner : IsApart (Source.dropOne '#' t) b := by
    cases t with
    | nil => exact apart
    | cons c t =>
      rw [Source.dropOne]
      split
      · exact apart.tail
      · exact apart
  rw [Source.target?, dropOne_append _ t arrow.hash, ← target?_identifier inner arrow]
  cases same : Source.dropOne '#' t with
  | nil =>
    -- no name is left, with or without the double quote of the `:=`
    rw [List.nil_append, identifier?_of_stops arrow.stop_dropOne, identifier?_of_stops arrow.stop]
  | cons c rest =>
    have noQuote : c ≠ '"' := by
      rintro rfl
      exact inner.quote (same ▸ List.mem_cons_self)
    have kept : Source.dropOne '"' (c :: rest ++ b) = c :: rest ++ b :=
      dropOne_of_head (by simpa using noQuote)
    generalize Source.dropOne '"' (c :: rest ++ b) = read at kept ⊢
    subst kept
    rfl

theorem lastIdentifier_eq_self {t : Text} (h : isIdentifier t = true) : lastIdentifier t = t ∧ t ≠ [] := by
  cases t with
  | nil => cases h
  | cons c t => exact ⟨by rw [lastIdentifier, if_pos h], List.cons_ne_nil c t⟩

theorem parenBalance_identifier {t : Text} (h : isIdentifier t = true) : Source.parenBalance t = 0 :=
  parenBalance_flat fun _ => Name.isFlat ⟨t, h⟩

theorem topLevel_whole (balance : Int) {t : Text} {v : Source.Assignment} (ne : t ≠ [])
    (h : assignment [] t = some (v, [])) :
    topLevel balance (Text.cut assignment t) = if 0 < balance then [] else [v] := by
  have := topLevel_found balance (b := []) ne (by rw [List.append_nil]; exact h)
  rw [List.append_nil] at this
  rw [this]
  simp [Text.cut, Text.cutFrom, topLevel]

/-- A name without calls, parentheses or not, gives at most one assignment: to its longest end that is an
identifier, if the parentheses before are closed. -/
theorem topLevel_name {t b body e : Text} (balance : Int) (apart : IsApart t b) (arrow : IsArrow b body)
    (statement : Source.statement? false body = some (e, [])) (ne : e ≠ [])
    (nothing : ∀ balance, topLevel balance (Text.cut assignment b) = []) :
    topLevel balance (Text.cut assignment (t ++ b)) =
      if lastIdentifier t = [] ∨ 0 < balance + Source.parenBalance t then []
      else [⟨lastIdentifier t, e.trim⟩] := by
  have found {y : Text} (inner : IsApart y b) (whole : isIdentifier (Source.dropOne '#' y) = true) :
      assignment [] (y ++ b) = some (⟨Source.dropOne '#' y, e.trim⟩, []) := by
    have target := target?_append inner arrow
    rw [if_pos whole] at target
    obtain ⟨d, rest, rfl⟩ := List.exists_cons_of_ne_nil ne
    simp only [assignment, target, statement]
  induction t generalizing balance with
  | nil => simp [lastIdentifier, nothing]
  | cons c t ih =>
    have step : assignment [] (c :: (t ++ b)) = none → topLevel balance (Text.cut assignment (c :: t ++ b)) =
        if lastIdentifier t = [] ∨ 0 < balance + Source.parenBalance (c :: t) then []
        else [⟨lastIdentifier t, e.trim⟩] := by
      intro missed
      have misses : Misses assignment [] [c] (t ++ b) := ⟨missed, trivial⟩
      have := topLevel_misses balance misses
      rw [List.singleton_append, ← List.cons_append] at this
      rw [this, ih (balance + Source.parenBalance [c]) apart.tail, Int.add_assoc, ← parenBalance_append]
      rfl
    have ne' : c :: t ++ b ≠ [] := List.cons_ne_nil _ _
    by_cases hash : c = '#'
    · subst hash
      have start : isIdentifier (.char '#' :: t) = false := rfl
      have balanced : Source.parenBalance (.char '#' :: t) = Source.parenBalance t := by
        simp [parenBalance_cons]
      rw [lastIdentifier, start]
      simp only [Bool.false_eq_true, if_false]
      by_cases identifier : isIdentifier t = true
      · -- the match starts at the mark before the name
        have here := found apart (by simpa [Source.dropOne] using identifier)
        obtain ⟨same, nonempty⟩ := lastIdentifier_eq_self identifier
        rw [topLevel_whole _ ne' here, balanced, parenBalance_identifier identifier, Int.add_zero, same]
        simp [nonempty, Source.dropOne]
      · apply step
        apply assignment_of_no_target
        have target := target?_append apart arrow
        rwa [if_neg (by simpa [Source.dropOne] using identifier)] at target
    · have same : Source.dropOne '#' (c :: t) = c :: t := dropOne_of_head (by simpa using hash)
      rw [lastIdentifier]
      by_cases identifier : isIdentifier (c :: t) = true
      · have here := found apart (by rwa [same])
        rw [if_pos identifier, topLevel_whole _ ne' here, parenBalance_identifier identifier, Int.add_zero,
          same]
        simp
      · rw [if_neg identifier]
        apply step
        apply assignment_of_no_target
        have target := target?_append apart arrow
        rwa [same, if_neg identifier] at target

/-! ## The assignment to a reference -/

theorem mem_of_mem_stripCalls {t : Text} {c : CodePoint} (h : c ∈ Source.stripCalls t) : c ∈ t := by
  obtain ⟨piece, mem, kept⟩ := List.mem_flatMap.mp h
  have inside : c ∈ piece.text := by
    cases piece with
    | plain d => exact kept
    | found u v =>
      rw [Source.keepNested] at kept
      split at kept
      · exact kept
      · cases kept
  rw [← Text.cut_text call t]
  exact List.mem_flatMap.mpr ⟨piece, mem, inside⟩

section

variable (k : Whole)

theorem misses_assignEnd (back : Text) : Misses assignment back (assignEnd k) [] := by
  refine Text.misses_of_ends fun x y same ne => ?_
  obtain ⟨c, y, rfl⟩ := List.exists_cons_of_ne_nil ne
  have mem : c ∈ assignEnd k := same ▸ List.mem_append_right x List.mem_cons_self
  have start : isNameStart c = false := by
    rw [Bool.eq_false_iff]
    intro start
    have other := forall_nameStart
      (P := fun c => !" :=;".toText.contains c && c != '-' && !c.isDigit) (by decide) start
    simp only [Bool.and_eq_true, Bool.not_eq_true', List.contains_eq_mem, decide_eq_false_iff_not,
      bne_iff_ne] at other
    exact not_mem_assignEnd k other.1.1 other.1.2 other.2 mem
  refine assignment_of_head ?_ ?_ start
  · rintro rfl
    exact not_mem_assignEnd k (by decide) (by decide) (by decide) mem
  · rintro rfl
    exact not_mem_assignEnd k (by decide) (by decide) (by decide) mem

theorem isArrow_assignEnd : IsArrow (assignEnd k) (assigned k) :=
  ⟨rfl, stops_cons.mpr (by decide), by simp [assignEnd]⟩

theorem isArrow_quote : IsArrow (.char '"' :: assignEnd k) (assigned k) :=
  ⟨rfl, stops_cons.mpr (by decide), by simp⟩

theorem statement?_assigned : Source.statement? false (assigned k) = some (.char ' ' :: k.text, []) := by
  refine statement?_append (e := .char ' ' :: k.text) [] fun c mem => ?_
  rcases List.mem_cons.mp mem with rfl | mem
  · decide
  · have := k.forall_text (P := fun c => c != '\'' && c != ';' && c != ':') (by decide) (by decide) c mem
    simp only [Bool.and_eq_true, bne_iff_ne] at this
    exact ⟨this.1.1, this.1.2, this.2⟩

theorem topLevel_of_misses {t : Text} (h : Misses assignment [] t []) (balance : Int) :
    topLevel balance (Text.cut assignment t) = [] := by
  have := topLevel_misses balance h
  rw [List.append_nil] at this
  rw [this]
  rfl

end

namespace Reference

/-- The `:=` behind the closing quote is not reached from within the name. -/
theorem isApart_quoted {name : Text} (valid : isTagName name = true) (k : Whole) :
    IsApart (Source.stripCalls name) (.char '"' :: assignEnd k) := by
  have other {c : CodePoint} (mem : c ∈ Source.stripCalls name) :=
    mem_tagName valid (mem_of_mem_stripCalls mem)
  refine ⟨fun mem => (other mem).1 rfl, fun z suffix ne colon => ?_⟩
  rw [dropWhile_append_stops z (stops_cons.mpr (by decide))] at colon
  cases left : z.dropWhile isBlank with
  | nil => simp [left] at colon
  | cons c rest =>
    obtain rfl : c = ':' := by simpa [left] using colon
    have mem : .char ':' ∈ z := (List.dropWhile_suffix _).subset (left ▸ List.mem_cons_self)
    exact (other (suffix.subset mem)).2.2 rfl

/-- A name with members has no blanks, so that nothing but its end stands before the `:=`. -/
theorem isApart_dotted {name : Text} (valid : isDotted name = true) (k : Whole) :
    IsApart name (assignEnd k) := by
  simp only [isDotted, Bool.and_eq_true, List.all_eq_true] at valid
  have other (c : CodePoint) (mem : c ∈ name) : isBlank c = false ∧ c ≠ '"' ∧ c ≠ ':' := by
    rcases Bool.or_eq_true_iff.mp (valid.2 c mem) with word | point
    · refine ⟨isBlank_of_isWord word, ?_, ?_⟩ <;> rintro rfl <;> cases word
    · obtain rfl : c = '.' := by simpa using point
      decide
  refine ⟨fun mem => (other _ mem).2.1 rfl, fun z suffix ne colon => ?_⟩
  obtain ⟨c, rest, rfl⟩ := List.exists_cons_of_ne_nil ne
  have first := other c (suffix.subset List.mem_cons_self)
  rw [List.cons_append, dropWhile_of_stops (stops_cons.mpr first.1)] at colon
  exact first.2.2 (by simpa using colon)

/-- The code of an assignment to a reference holds one assignment, to the target of the reference, or
none if there is no target. -/
theorem assignments_assign (r : Reference) (k : Whole) :
    Source.assignments (r.assign k) = r.target.toList.map (⟨·, k.text⟩) := by
  have ne : (.char ' ' :: k.text : Text) ≠ [] := List.cons_ne_nil _ _
  have shape : (if lastIdentifier r.stripped = [] ∨ 0 < 0 + Source.parenBalance r.stripped then []
      else [(⟨lastIdentifier r.stripped, k.text⟩ : Source.Assignment)]) =
        r.target.toList.map (⟨·, k.text⟩) := by
    rw [target, Int.zero_add]
    split <;> rfl
  rw [← shape, Source.assignments, stripCalls_assign, Source.assignmentsIn]
  cases r with
  | dotted name valid =>
    have scan := topLevel_name 0 (isApart_dotted valid k) (isArrow_assignEnd k) (statement?_assigned k) ne
      (topLevel_of_misses (misses_assignEnd k []))
    rwa [k.trim_text] at scan
  | quoted name valid =>
    have apart := isApart_quoted valid k
    have behind : Misses assignment [] (.char '"' :: assignEnd k) [] :=
      ⟨assignment_of_no_target rfl, misses_assignEnd k _⟩
    have scan := topLevel_name 0 apart (isArrow_quote k) (statement?_assigned k) ne
      (topLevel_of_misses behind)
    rw [k.trim_text] at scan
    -- the opening quote belongs to the match if all of the name is an identifier
    have opening : Source.target? (.char '"' :: (Source.stripCalls name ++ .char '"' :: assignEnd k)) =
        if isIdentifier (Source.stripCalls name) then some (Source.stripCalls name, assigned k)
          else none := by
      rw [← target?_identifier apart (isArrow_quote k)]
      rfl
    by_cases identifier : isIdentifier (Source.stripCalls name) = true
    · rw [if_pos identifier] at opening
      have here : assignment [] (.char '"' :: (Source.stripCalls name ++ .char '"' :: assignEnd k)) =
          some (⟨Source.stripCalls name, k.text⟩, []) := by
        simp only [assignment, opening, statement?_assigned, k.trim_text]
      obtain ⟨same, nonempty⟩ := lastIdentifier_eq_self identifier
      rw [topLevel_whole 0 (List.cons_ne_nil _ _) here]
      simp [stripped, same, nonempty, parenBalance_identifier identifier]
    · rw [if_neg identifier] at opening
      have misses : Misses assignment [] [.char '"'] (Source.stripCalls name ++ .char '"' :: assignEnd k) :=
        ⟨assignment_of_no_target opening, trivial⟩
      have step := topLevel_misses 0 misses
      rw [List.singleton_append] at step
      rw [step]
      exact scan

/-- Whether carrying out code keeps every binding but those of one name, and adds none. -/
def KeepsOthers (code name : Text) : Prop :=
  ∀ run : Run, (Run.execute ⟨.plain, none⟩ code run).1.env.others name.fold = run.env.others name.fold

/-- The assignment of any whole number to a reference keeps all other bindings, in every environment, if
and only if the name that it binds is the name of the reference in some letter case. -/
theorem keepsOthers_iff (r : Reference) :
    (∀ k, KeepsOthers (r.assign k) r.name) ↔ ∀ t ∈ r.target, t.fold = r.name.fold := by
  constructor
  · intro keeps t bound
    -- in an empty environment the binding is the only one
    let one : Whole := ⟨false, "1".toText, by decide, by decide⟩
    let empty : Run := { env := {} }
    have value : (Environment.evaluate {} one.text).normalize = .int 1 := by decide +kernel
    have bind : empty.env.assign ⟨t, one.text⟩ =
        .ok ⟨[(t.fold, ⟨t, .int 1, "INT".toText, .computed⟩)]⟩ := by
      simp only [empty, Environment.assign, Environment.made, value]
      rfl
    have code : (Run.execute ⟨.plain, none⟩ (r.assign one) empty).1.env =
        ⟨[(t.fold, ⟨t, .int 1, "INT".toText, .computed⟩)]⟩ := by
      show (Run.assignAll (Source.assignments (r.assign one)) empty).1.env = _
      rw [assignments_assign, Option.mem_def.mp bound]
      simp only [Option.toList_some, List.map_cons, List.map_nil, Run.assignAll, Run.assign_of_bound bind]
      cases (Environment.made empty.env ⟨t, one.text⟩).value.shown empty.places <;> rfl
    have kept := keeps one empty
    rw [code] at kept
    simpa [Environment.others, empty] using kept
  · intro same k run
    show (Run.assignAll (Source.assignments (r.assign k)) run).1.env.others _ = _
    rw [assignments_assign]
    cases bound : r.target with
    | none => rfl
    | some t =>
      have others := run.others_assign ⟨t, k.text⟩
      rw [same t bound] at others
      rw [← others]
      simp only [Option.toList_some, List.map_cons, List.map_nil, Run.assignAll]
      obtain ⟨after, fault⟩ := run.assign ⟨t, k.text⟩
      cases fault <;> rfl

/-- The last word of a quoted name is overwritten: `"Tank Level" := 5;` leaves 5 in `Level`. -/
theorem quoted_assign_overwrites_last_word :
    let level : Binding := ⟨"Level".toText, .int 1, "INT".toText, .cache⟩
    let tank : Reference := .quoted "Tank Level".toText (by decide)
    let five : Whole := ⟨false, "5".toText, by decide, by decide⟩
    let run : Run := { env := ⟨[("level".toText, level)]⟩ }
    tank.assign five = "\"Tank Level\" := 5;".toText ∧
      (Run.execute ⟨.plain, none⟩ (tank.assign five) run).1.env.lookup "Level".toText =
        some ⟨"Level".toText, .int 5, "INT".toText, .computed⟩ := by
  decide +kernel

end Reference
end Program
end SclNarrator

import SclNarrator.Command.Run
import SclNarrator.Proofs.Number.Numeral
import SclNarrator.Proofs.Program.Stretches
import SclNarrator.Proofs.Text.Keyword
import SclNarrator.Proofs.Text.Utf8

/-!
What the commands do with code that cannot be read.

What is proved:
  1. the messages of faults are printable texts (`printable_message`), so a command that is refused
     prints one line;
  2. the command that analyses code reports every fault that way. The one that classifies code does so
     if and only if the system refused the file, and breaks off without a word where the bytes are no
     text or the path is none (`unreadable_code_reported`).

Correspondence (analyzer ↔ here):
  `read_code`                       ↔ `Command.readCode`
  the handlers in `analyze`         ↔ every `ReadFault`
  the handler in `classify_command` ↔ `ReadFault.isSystem`
-/

namespace SclNarrator

open CodePoint (char)

/-! ## Printable texts -/

/-- Nothing is left out of a text without escapes where the output is no terminal. -/
theorem Text.withoutControls_of_not_mem {t : Text} (h : char '\x1b' ∉ t) : t.withoutControls = t := by
  refine replaceAll_of_none fun x y whole _ => ?_
  unfold controlSequence
  split
  · exact absurd (whole ▸ List.mem_append_right x List.mem_cons_self) h
  · rfl

/-- Whether a text has nothing but printable characters. -/
def Text.Printable (t : Text) : Prop := ∀ c ∈ t, isPrintable c = true

instance (t : Text) : Decidable t.Printable := inferInstanceAs (Decidable (∀ c ∈ t, isPrintable c = true))

namespace Text.Printable

variable {s t : Text}

theorem append (hs : Printable s) (ht : Printable t) : Printable (s ++ t) := by
  intro c mem
  exact (List.mem_append.mp mem).elim (hs c) (ht c)

theorem flatMap {f : CodePoint → Text} (h : ∀ c ∈ t, Printable (f c)) : Printable (t.flatMap f) := by
  intro d mem
  obtain ⟨c, inside, here⟩ := List.mem_flatMap.mp mem
  exact h c inside d here

theorem singleton {c : CodePoint} (shown : isPrintable c = true) : Printable [c] :=
  fun _ mem => (List.mem_singleton.mp mem).symm ▸ shown

theorem natText (n : Nat) : Printable (Numeral.natText n) := by
  intro c mem
  exact forall_digit (P := isPrintable) (by decide) (Numeral.isDigit_natText mem)

theorem hexDigits (count n : Nat) : Printable (SclNarrator.hexDigits count n) := by
  have digit : ∀ k < 16, isPrintable (char (Nat.digitChar k)) = true := by decide
  induction count generalizing n with
  | zero => exact fun c mem => absurd mem List.not_mem_nil
  | succ count ih => exact (ih _).append (singleton (digit _ (Nat.mod_lt _ (by decide))))

theorem escapeChar {quote : CodePoint} (shown : isPrintable quote = true) (c : CodePoint) :
    Printable (SclNarrator.escapeChar quote c) := by
  have backslash : Printable [char '\\'] := by decide
  unfold SclNarrator.escapeChar
  split
  · next same =>
    refine backslash.append (t := [c]) (singleton ?_)
    rcases same with rfl | rfl
    · exact shown
    · decide
  split
  · decide
  split
  · decide
  split
  · decide
  split
  · next plain => exact singleton plain
  split
  · exact append (by decide) (hexDigits 2 _)
  split
  · exact append (by decide) (hexDigits 4 _)
  · exact append (by decide) (hexDigits 8 _)

theorem quoted (t : Text) : Printable t.quoted := by
  have shown : isPrintable (if t.contains '\'' && !t.contains '"' then char '"' else char '\'') = true := by
    split <;> decide
  exact append (append (singleton shown) (flatMap fun c _ => escapeChar shown c)) (singleton shown)

theorem escapeHalves (h : Printable t) : Printable t.escapeHalves := by
  refine flatMap fun c mem => ?_
  split
  · exact append (by decide) (hexDigits 4 _)
  · exact singleton (h c mem)

theorem withoutControls (h : Printable t) : t.withoutControls = t :=
  withoutControls_of_not_mem fun mem => absurd (h _ mem) (by decide)

end Text.Printable

namespace Utf8.Fault

theorem printable_message (fault : Utf8.Fault) : fault.message.Printable := by
  have cause : fault.cause.message.Printable := by cases fault.cause <;> decide
  refine Text.Printable.append (.append (.append (by decide) ?_) (by decide)) cause
  split
  · exact .append (.append (.append (by decide) (.hexDigits 2 _)) (by decide)) (.natText _)
  · exact .append (.append (.append (by decide) (.natText _)) (by decide)) (.natText _)

end Utf8.Fault

theorem ReadFault.printable_message (fault : ReadFault) : fault.message.Printable := by
  cases fault with
  | notFound path | notDirectory path | isDirectory path | nameTooLong path =>
      exact .append (by decide) (.quoted path)
  | unencodable half first last =>
    refine .append (.append (by decide) ?_) (by decide)
    split
    · exact .append (.append (.append (by decide) (.quoted _)) (by decide)) (.natText _)
    · exact .append (.append (.append (by decide) (.natText _)) (by decide)) (.natText _)
  | zeroByte => decide
  | undecodable fault => exact fault.printable_message

/-! ## Constructs -/

namespace Construct

/-- The letters that only they and their capitals stand for. -/
def isUnmistakable (k : CodePoint) : Bool := k.isLower && k != 's' && k != 'i' && k != 'k'

theorem upperChar_of_looseLetter {c : CodePoint} (h : isUnmistakable (looseLetter c) = true) :
    upperChar c = [(looseLetter c).toUpper] := by
  unfold looseLetter at h ⊢
  split_ifs at h ⊢ with upper
  · exact beq_iff_eq.mp (forall_upper (P := fun c => upperChar c == [c.toLower.toUpper]) (by decide) upper)
  · cases h
  · cases h
  · cases h
  · have lower : c.isLower = true := by
      simp only [isUnmistakable, Bool.and_eq_true] at h
      exact h.1.1.1
    exact beq_iff_eq.mp (forall_lower (P := fun c => upperChar c == [c.toUpper]) (by decide) lower)

theorem upper_of_map_looseLetter {m word : Text} (h : m.map looseLetter = word)
    (letters : ∀ k ∈ word, isUnmistakable k = true) : m.upper = word.map CodePoint.toUpper := by
  subst h
  induction m with
  | nil => rfl
  | cons c m ih =>
    rw [List.map_cons, List.forall_mem_cons] at letters
    rw [Text.upper, List.flatMap_cons, upperChar_of_looseLetter letters.1, ← Text.upper, ih letters.2]
    rfl

theorem exists_of_oneOf {words : List Text} {back t m after : Text}
    (h : oneOf words back t = some (m, after)) :
    ∃ word ∈ words, m.map looseLetter = word := by
  obtain ⟨word, among, found⟩ := List.exists_of_findSome?_eq_some h
  obtain ⟨rest, stands, same⟩ := Option.map_eq_some_iff.mp found
  obtain ⟨m', rfl, loose, -⟩ := spelled_of_dropKeyword? stands
  have taken : Lexeme.taken (m' ++ rest) rest = (m', rest) := by simp [Lexeme.taken]
  rw [taken] at same
  cases same
  exact ⟨word, among, loose⟩

theorem classify_cases (code : Text) :
    (∃ kind, classify code = ⟨kind, none⟩) ∨
    ∃ kind, ∃ words, (kind, words) ∈ instructionWords ∧ ∃ word ∈ words,
      classify code = ⟨kind, some (word.map CodePoint.toUpper)⟩ := by
  have letters : ∀ entry ∈ instructionWords, ∀ word ∈ entry.2, ∀ k ∈ word,
      isUnmistakable k = true := by decide
  unfold classify ofClean
  generalize Source.stripComments false code = clean
  split
  · next kind word _ => exact .inl ⟨kind, rfl⟩
  · cases found : instructionWords.findSome? _ with
    | none => exact .inl ⟨.plain, rfl⟩
    | some construct =>
      obtain ⟨entry, mem, here⟩ := List.exists_of_findSome?_eq_some found
      obtain ⟨result, searched, same⟩ := Option.map_eq_some_iff.mp here
      obtain ⟨y, -, stands⟩ := Text.search_eq_some searched
      obtain ⟨word, among, loose⟩ := exists_of_oneOf stands
      refine .inr ⟨entry.1, entry.2, mem, word, among, ?_⟩
      rw [← upper_of_map_looseLetter loose (letters entry mem word among)]
      exact same.symm

end Construct

theorem Report.isWhole_constructLine (code : Text) :
    (constructLine (Construct.classify code)).isWhole = true := by
  obtain ⟨kind, same⟩ | ⟨kind, words, mem, word, among, same⟩ := Construct.classify_cases code
  · rw [same]
    cases kind <;> decide
  · have all : ∀ entry ∈ Construct.instructionWords, ∀ word ∈ entry.2,
        (constructLine ⟨entry.1, some (word.map CodePoint.toUpper)⟩).isWhole = true := by decide
    rw [same]
    exact all _ mem _ among

/-! ## Files -/

namespace Path

variable {path : Text} {fault : ReadFault}

theorem half_mem_join {index : Fin 2048} {parts : List Text} :
    .half index ∈ Text.join ['/'] parts ↔ ∃ part ∈ parts, .half index ∈ part := by
  induction parts with
  | nil => simp [Text.join]
  | cons t rest ih =>
    cases rest with
    | nil => simp [Text.join]
    | cons u rest =>
      rw [Text.join, List.mem_append, List.mem_append, ih, List.exists_mem_cons_iff]
      simp

/-- A path without steps that lead nowhere has the halves that it has with them. -/
theorem half_mem_normalize {index : Fin 2048} : .half index ∈ normalize path ↔ .half index ∈ path := by
  have rooted : .half index ∉ root path := by
    unfold root
    split <;> simp
  have stepped : (∃ step ∈ steps path, .half index ∈ step) ↔ .half index ∈ path := by
    obtain ⟨part, parts, split, whole⟩ := @partsAt_eq_cons path (char '/')
    have within : .half index ∈ path ↔ ∃ step ∈ part :: parts, .half index ∈ step := by
      conv_lhs => rw [whole]
      simp
    rw [within, steps, split]
    constructor
    · rintro ⟨step, mem, inside⟩
      exact ⟨step, (List.mem_filter.mp mem).1, inside⟩
    · rintro ⟨step, mem, inside⟩
      refine ⟨step, List.mem_filter.mpr ⟨mem, ?_⟩, inside⟩
      have filled : step ≠ [] := List.ne_nil_of_mem inside
      have other : step ≠ ".".toText := by
        rintro rfl
        revert inside
        simp [String.toText, Text.ofChars]
      simp [filled, other]
  have all : .half index ∈ root path ++ Text.join ['/'] (steps path) ↔ .half index ∈ path := by
    rw [List.mem_append, half_mem_join, stepped, or_iff_right rooted]
  rw [normalize]
  split
  · next nothing =>
    rw [nothing] at all
    simpa using all
  · exact all

theorem unencodable?_eq_none_iff : unencodable? path = none ↔ ∀ c ∈ path, isStray c = false := by
  have dropped : path.dropWhile (!isStray ·) = [] ↔ ∀ c ∈ path, isStray c = false := by
    simp [List.dropWhile_eq_nil_iff]
  rw [← dropped, unencodable?]
  split
  · next nothing => exact iff_of_true rfl nothing
  · next found => exact iff_of_false (by simp) (by rw [found]; simp)

/-- A path can be put into bytes if and only if every half in it stands for a byte. -/
theorem unencodable?_normalize : unencodable? (normalize path) = none ↔ ∀ c ∈ path, isStray c = false := by
  rw [unencodable?_eq_none_iff]
  have halves (h : ∀ index, CodePoint.half index ∈ path ↔ .half index ∈ normalize path) (c : CodePoint) :
      c.isHalf = true → (c ∈ path ↔ c ∈ normalize path) := by
    cases c with
    | char c => exact fun half => nomatch half
    | half index => exact fun _ => h index
  have same := halves fun index => half_mem_normalize.symm
  have stray {c : CodePoint} (h : isStray c = true) : c.isHalf = true := (Bool.and_eq_true_iff.mp h).1
  constructor
  · intro clean c mem
    by_contra found
    rw [Bool.not_eq_false] at found
    exact absurd (clean c ((same c (stray found)).mp mem)) (by simp [found])
  · intro clean c mem
    by_contra found
    rw [Bool.not_eq_false] at found
    exact absurd (clean c ((same c (stray found)).mpr mem)) (by simp [found])

theorem isSystem_of_unencodable? (h : unencodable? path = some fault) : fault.isSystem = false := by
  rw [unencodable?] at h
  split at h
  · cases h
  · cases h
    rfl

theorem clean_of_fault? (h : fault? path = none) :
    char '\x00' ∉ path ∧ ∀ c ∈ path, isStray c = false := by
  rw [← unencodable?_normalize, ← List.contains_iff_mem, Bool.not_eq_true]
  rw [fault?] at h
  split at h
  · cases h
  · next encodable =>
    split at h
    · cases h
    · next clean => exact ⟨Bool.not_eq_true _ ▸ clean, encodable⟩

/-- Of the faults that a path alone can have only its length is a matter of the system. -/
theorem isSystem_of_fault? (h : fault? path = some fault) :
    fault.isSystem = true ↔ char '\x00' ∉ path ∧ ∀ c ∈ path, isStray c = false := by
  rw [← unencodable?_normalize, ← List.contains_iff_mem, Bool.not_eq_true]
  rw [fault?] at h
  split at h
  · next stray =>
    cases h
    rw [isSystem_of_unencodable? stray, stray]
    simp
  · next encodable =>
    rw [encodable]
    split at h
    · next zero =>
      cases h
      rw [zero]
      simp [ReadFault.isSystem]
    · next clean =>
      split at h
      · cases h
        exact iff_of_true rfl ⟨Bool.not_eq_true _ ▸ clean, rfl⟩
      · cases h

end Path

namespace FileTree

variable {path : Text} {fault : ReadFault}

theorem isSystem_of_walk {above : List FileTree} {tree : FileTree} {steps : List Text}
    (h : walk path above tree steps = .error fault) : fault.isSystem = true := by
  induction steps generalizing above tree with
  | nil =>
    cases h
    rfl
  | cons step rest ih =>
    rw [walk.eq_def] at h
    simp only at h
    split at h
    · split at h <;> exact ih h
    · split at h
      · cases h
        rfl
      · split at h
        · split at h
          · cases h
          · cases h
            rfl
        · split at h
          · cases h
            rfl
          · exact ih h

/-- The system refuses a file unless its path has a zero in it or a half that stands for no byte. -/
theorem isSystem_of_read {tree : FileTree} (h : tree.read path = .error fault) :
    fault.isSystem = true ↔ char '\x00' ∉ path ∧ ∀ c ∈ path, Path.isStray c = false := by
  rw [read] at h
  split at h
  · next found =>
    cases h
    exact Path.isSystem_of_fault? found
  · next found => exact iff_of_true (isSystem_of_walk h) (Path.clean_of_fault? found)

end FileTree

/-! ## Commands -/

namespace Command

variable {input : Input} {code : Text}

def codeBytes (input : Input) (code : Text) : Except ReadFault (List UInt8) :=
  if code = "-".toText then .ok input.standard else input.file code

/-- Whether the code that an argument names is there and is text in UTF-8. -/
def Readable (input : Input) (code : Text) : Prop :=
  ∃ cs : List Char, codeBytes input code = .ok (cs.flatMap String.utf8EncodeChar)

/-- Whether a command ended with one line on the error output, that of an error, and nothing on the other. -/
def Ending.ReportsError (ending : Ending) : Prop :=
  ending.exitCode = 2 ∧ ending.output = [] ∧
    ∃ message : Text, message.Printable ∧ ending.errorOutput = "Error: ".toText ++ message ++ "\n".toText

theorem readCode_eq (input : Input) (code : Text) : readCode input code = decoded (codeBytes input code) := by
  unfold readCode codeBytes
  split <;> rfl

theorem readable_iff : Readable input code ↔ ∃ t, readCode input code = .ok t := by
  rw [readCode_eq, decoded.eq_def]
  constructor
  · rintro ⟨cs, bytes⟩
    rw [bytes]
    simp only [Utf8.decode_eq_ok_iff.mpr ⟨cs, rfl, rfl⟩]
    exact ⟨_, rfl⟩
  · rintro ⟨t, h⟩
    split at h
    · cases h
    · next bytes given =>
      split at h
      · next u read =>
        obtain ⟨cs, rfl, -⟩ := Utf8.decode_eq_ok_iff.mp read
        exact ⟨cs, given⟩
      · cases h

/-- The fault of code that cannot be read: that of its file, or one of its bytes. -/
theorem exists_fault (h : ¬Readable input code) : ∃ fault, readCode input code = .error fault ∧
    (codeBytes input code = .error fault ∨
      ∃ bytes bad, codeBytes input code = .ok bytes ∧ fault = .undecodable bad) := by
  cases read : readCode input code with
  | ok t => exact absurd (readable_iff.mpr ⟨t, read⟩) h
  | error fault =>
    refine ⟨fault, rfl, ?_⟩
    rw [readCode_eq, decoded.eq_def] at read
    split at read
    · next given =>
      cases read
      exact .inl given
    · next bytes given =>
      split at read
      · cases read
      · next bad _ =>
        cases read
        exact .inr ⟨bytes, bad, given, rfl⟩

theorem reportsError_refused (fault : ReadFault) : (Ending.refused fault.message).ReportsError := by
  have shown := fault.printable_message.escapeHalves
  have line : ("Error: ".toText ++ fault.message.escapeHalves).Printable := .append (by decide) shown
  refine ⟨rfl, rfl, fault.message.escapeHalves, shown, ?_⟩
  rw [Ending.errorOutput, Report.printed, List.flatMap_singleton, line.withoutControls]

theorem run_analyze_of_fault {fault : ReadFault} (h : readCode input code = .error fault) (tags : Option Text)
    (json report : Bool) (places : Int) :
    run input (.analyze code tags json report places) = .refused fault.message := by
  have failed : prepare input code tags report places = .error fault.message := by
    rw [prepare, h]
    rfl
  rw [run, failed]

theorem exitCode_classify_of_readable (h : Readable input code) :
    (run input (.classify code)).exitCode = 0 := by
  obtain ⟨t, read⟩ := readable_iff.mp h
  have whole : [Report.constructLine (Construct.classify t)].all Text.isWhole = true := by
    rw [List.all_cons, Report.isWhole_constructLine]
    rfl
  rw [run, read]
  simp only [Ending.ofTexts, if_pos whole]
  rfl

/-- What a command reads in a directory. -/
def Input.ofTree (tree : FileTree) (standard : List UInt8) : Input := ⟨tree.read, standard⟩

theorem isSystem_iff {tree : FileTree} {standard : List UInt8} {fault : ReadFault}
    (origin : codeBytes (.ofTree tree standard) code = .error fault ∨
      ∃ bytes bad, codeBytes (.ofTree tree standard) code = .ok bytes ∧ fault = .undecodable bad) :
    fault.isSystem = true ↔ code ≠ "-".toText ∧ char '\x00' ∉ code ∧ (∀ c ∈ code, Path.isStray c = false) ∧
      ∃ fault, tree.read code = .error fault := by
  unfold codeBytes at origin
  split at origin
  · next dash =>
    refine iff_of_false ?_ fun h => h.1 dash
    rcases origin with none | ⟨bytes, bad, -, rfl⟩
    · cases none
    · simp [ReadFault.isSystem]
  · next path =>
    rcases origin with refused | ⟨bytes, bad, given, rfl⟩
    · have refused : tree.read code = .error fault := refused
      rw [FileTree.isSystem_of_read refused]
      exact ⟨fun fit => ⟨path, fit.1, fit.2, fault, refused⟩, fun h => ⟨h.2.1, h.2.2.1⟩⟩
    · have given : tree.read code = .ok bytes := given
      refine iff_of_false (by simp [ReadFault.isSystem]) ?_
      rintro ⟨-, -, -, fault, refused⟩
      rw [given] at refused
      cases refused

theorem run_classify_of_fault {fault : ReadFault} (h : readCode input code = .error fault) :
    run input (.classify code) =
      if fault.isSystem then .refused fault.message else .crashed [] (.unreadable fault) := by
  rw [run, h]

/-- For one argument, the command that classifies code ends well if the code can be read. If it
cannot, the command that analyses it reports an error, and the one that classifies it does so if and
only if the system refused a file; else it breaks off, with exit code one and nothing printed. -/
theorem unreadable_code_reported {tree : FileTree} {standard : List UInt8} {classifying analyzing : List Text}
    {tags : Option Text} {json report : Bool} {places : Int}
    (classifies : parse? classifying = some (.classify code))
    (analyzes : parse? analyzing = some (.analyze code tags json report places)) :
    (Readable (.ofTree tree standard) code →
      (runArguments (.ofTree tree standard) classifying).exitCode = 0) ∧
    (¬Readable (.ofTree tree standard) code →
      (runArguments (.ofTree tree standard) analyzing).ReportsError ∧
      ((runArguments (.ofTree tree standard) classifying).ReportsError ↔
        code ≠ "-".toText ∧ char '\x00' ∉ code ∧ (∀ c ∈ code, Path.isStray c = false) ∧
          ∃ fault, tree.read code = .error fault) ∧
      (¬(runArguments (.ofTree tree standard) classifying).ReportsError →
        ∃ fault, runArguments (.ofTree tree standard) classifying = .crashed [] (.unreadable fault))) := by
  rw [runArguments, runArguments, classifies, analyzes]
  refine ⟨exitCode_classify_of_readable, fun unreadable => ?_⟩
  obtain ⟨fault, read, origin⟩ := exists_fault unreadable
  have analysis := run_analyze_of_fault read tags json report places
  have classification := run_classify_of_fault read
  simp only [analysis, classification, ← isSystem_iff origin]
  have reported := reportsError_refused fault
  refine ⟨reported, ?_⟩
  cases system : fault.isSystem with
  | true => exact ⟨iff_of_true reported rfl, fun silent => absurd reported silent⟩
  | false =>
    have crashes : ¬(Ending.crashed [] (.unreadable fault)).ReportsError := by
      rintro ⟨code, -⟩
      cases code
    exact ⟨iff_of_false crashes (by decide), fun _ => ⟨fault, rfl⟩⟩

/-- Where there is no file, both commands report an error. -/
theorem unreadable_code_reported_missing :
    (runArguments (.ofTree .empty []) ["classify".toText, "x".toText]).ReportsError ∧
      (runArguments (.ofTree .empty []) ["analyze".toText, "x".toText]).ReportsError := by
  have missing : FileTree.empty.read "x".toText = .error (.notFound "x".toText) := by decide
  have unreadable : ¬Readable (.ofTree .empty []) "x".toText := by
    rintro ⟨cs, given⟩
    have given : FileTree.empty.read "x".toText = _ := given
    rw [missing] at given
    cases given
  have classifies : parse? ["classify".toText, "x".toText] = some (.classify "x".toText) := by decide
  have analyzes : parse? ["analyze".toText, "x".toText] = some (.analyze "x".toText none false false 2) := by
    decide +kernel
  have both := (unreadable_code_reported classifies analyzes).2 unreadable
  exact ⟨both.2.1.mpr ⟨by decide, by decide, by decide, _, missing⟩, both.1⟩

/-- On a file of one byte that starts no character, the one command breaks off and the other reports
an error. -/
theorem classify_breaks_off :
    ¬Readable (.ofTree (.ofPaths [("x".toText, [0xff])]) []) "x".toText ∧
      (runArguments (.ofTree (.ofPaths [("x".toText, [0xff])]) [])
        ["analyze".toText, "x".toText]).ReportsError ∧
      runArguments (.ofTree (.ofPaths [("x".toText, [0xff])]) []) ["classify".toText, "x".toText] =
        .crashed [] (.unreadable (.undecodable ⟨0, 1, 0xff, .invalidStart⟩)) := by
  have read : readCode (.ofTree (.ofPaths [("x".toText, [0xff])]) []) "x".toText =
      .error (.undecodable ⟨0, 1, 0xff, .invalidStart⟩) := by rfl
  refine ⟨fun readable => ?_, ?_, by rfl⟩
  · obtain ⟨t, given⟩ := readable_iff.mp readable
    rw [read] at given
    cases given
  · have analyzes : parse? ["analyze".toText, "x".toText] =
        some (.analyze "x".toText none false false 2) := by
      decide +kernel
    rw [runArguments, analyzes]
    simp only [run_analyze_of_fault read]
    exact reportsError_refused _

end Command

end SclNarrator

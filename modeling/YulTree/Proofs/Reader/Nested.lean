import YulTree.Proofs.Reader.Printed
import YulTree.Proofs.Reader.Soundness
import YulTree.Proofs.Reader.Transfer
import YulTree.Proofs.Token.Joint

/-!
# Nested texts

Texts of objects that stand one after the other between the braces of another object are read as
they are read alone.  So reading the whole text is the same as attaching the objects that were
read from its parts (`read_nest`).
-/

namespace YulTree

/-- The lines of an object's text: its head, the texts of its children, and its closing brace. -/
def Text.nest (name : Text) (sources : List Text) : Text :=
  "object " ++ (Quoted.encode name ++ (" \x7b\n" ++ (sources.flatMap (· ++ ['\n']) ++ ['\x7d'])))

/-- The first token besides pragmas begins an object. -/
def Text.InObjectForm (source : Text) : Prop :=
  ∃ token ∈ ((Token.significant source).dropWhile fun token => token.kind == .pragma).head?,
    token.kind = .objectKeyword

namespace Grammar

open Lexeme Reader

variable {κ : Type}

theorem RootTree.exists_of_inObjectForm {tree : RootTree} {source : Text}
    (derived : tree.lexemes = all source) (form : source.InObjectForm) :
    ∃ pragma outermost, tree = .object pragma outermost := by
  cases tree with
  | object pragma outermost => exact ⟨pragma, outermost, rfl⟩
  | block pragma lone =>
      obtain ⟨token, member, isKeyword⟩ := form
      have isOpening : lone.opening.lexeme.token.kind = .openBrace := lone.opening.isKind
      have first : ((Token.significant source).dropWhile fun token =>
          token.kind == .pragma).head? = some lone.opening.lexeme.token := by
        rw [← tokens_all, ← derived]
        cases pragma with
        | none => simp [lexemes, pragmaLexemes, BlockTree.lexemes, isOpening]
        | some pragma =>
            have isPragma : pragma.lexeme.token.kind = .pragma := pragma.isKind
            simp [lexemes, pragmaLexemes, BlockTree.lexemes, isOpening, isPragma]
      rw [first] at member
      obtain rfl := Option.mem_some.mp member
      rw [isOpening] at isKeyword
      cases isKeyword

theorem ObjectTree.lexemes_eq_concat (tree : ObjectTree) :
    ∃ front, tree.lexemes = front ++ [tree.closing.lexeme] := by
  cases tree with
  | mk keyword name opening code items closing =>
      refine ⟨keyword.lexeme :: name.lexeme :: opening.lexeme ::
        (codeLexemes code ++ ItemTree.lexemesAll items), ?_⟩
      simp [ObjectTree.lexemes]

theorem endsWell_of_derived {pragma : Option (Terminal .pragma)} {outermost : ObjectTree}
    {source : Text} (derived : pragmaLexemes pragma ++ outermost.lexemes = all source) :
    EndsWell (all source) := by
  obtain ⟨front, cut⟩ := outermost.lexemes_eq_concat
  intro lexeme member
  rw [← derived, cut, ← List.append_assoc, List.getLast?_concat] at member
  obtain rfl := Option.mem_some.mp member
  rw [outermost.closing.isKind]
  exact ⟨by decide, by decide⟩

/-- Lexemes keep their meaning where their source is part of another text. -/
theorem carries_moved (payload : Text → κ) (front source back : Text) :
    Carries payload source (front ++ (source ++ back)) (Moved front.byteSize) := by
  constructor
  · intro lexeme moved same
    exact same.kind
  · intro lexeme moved same _
    exact same.text
  · intro pragma other same _
    rw [Terminal.table?, Terminal.table?, same.text]
  · intro opening closing first last openingSame closingSame _ _ before body after cut beforeSize
      bodySize
    have firstStop : first.token.stop = front.byteSize + opening.token.stop := by
      rw [Token.stop, Token.stop, openingSame.start, openingSame.text, Nat.add_assoc]
    refine ⟨body, ?_, rfl⟩
    have target : front ++ (source ++ back) = (front ++ before) ++ (body ++ (after ++ back)) := by
      rw [cut]
      simp
    rw [target]
    apply Text.slice?_append
    · rw [Text.byteSize_append, beforeSize, firstStop]
    · rw [firstStop, closingSame.start, ← bodySize, Nat.add_assoc]

section

variable {limit : Nat} {payload : Text → κ}

/-- The text of an object has a derivation of the same object wherever it stands on lines of its
own. -/
theorem exists_moved {source : Text} {object : Object κ}
    (read : Reader.read ⟨limit, payload⟩ source = .ok object) (form : source.InObjectForm)
    (front more lead : Text) :
    ∃ (pragma : Option (Terminal .pragma)) (nested : ObjectTree) (trailing : Text),
      ahead lead front.byteSize (source ++ '\n' :: more) =
        pragmaLexemes pragma ++
          (nested.lexemes ++ ahead trailing (front ++ (source ++ ['\n'])).byteSize more) ∧
      ListsTable pragma ∧ nested.Admissible limit ∧
      nested.denote payload (front ++ (source ++ '\n' :: more)) pragma none = object := by
  obtain ⟨tree, derived, admissible, rfl⟩ := exists_derivation_of_read read
  obtain ⟨pragma, outermost, rfl⟩ := RootTree.exists_of_inObjectForm derived form
  obtain ⟨row, trailing, cut, same⟩ :=
    ahead_append_lineFeed (endsWell_of_derived derived) lead front.byteSize more
  have carries := carries_moved payload front source ('\n' :: more)
  obtain ⟨lists, outermostAdmissible⟩ := admissible
  rw [← derived] at same
  obtain ⟨pragmaRow, objectRow, rfl, pragmaSame, objectSame⟩ := exists_of_forall₂_append same
  obtain ⟨marked, rfl, markedLists, sameBundle⟩ := exists_carried_pragma carries lists pragmaSame
  obtain ⟨nested, rfl, nestedAdmissible, -, sameObject⟩ :=
    outermost.exists_carried carries limit [] objectRow outermostAdmissible
      (suffix_of_eq_append derived) objectSame
  refine ⟨marked, nested, trailing, ?_, markedLists, nestedAdmissible,
    sameObject pragma marked none sameBundle⟩
  rw [cut, List.append_assoc, Text.byteSize_append front]

/-- What is told about the texts of the children. -/
abbrev ReadAs (limit : Nat) (payload : Text → κ) : List Text → List (Object κ) → Prop :=
  List.Forall₂ fun source object =>
    Reader.read ⟨limit, payload⟩ source = .ok object ∧ source.InObjectForm

def linesOf (sources : List Text) : Text := sources.flatMap (· ++ ['\n']) ++ ['\x7d']

theorem linesOf_cons (source : Text) (sources : List Text) :
    linesOf (source :: sources) = source ++ '\n' :: linesOf sources := by
  simp [linesOf]

theorem resume_opened_row (reader : Reader κ) (size : Nat) {level : Level κ}
    {outer : List (Level κ)} {row : List Lexeme}
    (noCode : ∀ lexeme ∈ row.head?, lexeme.kind ≠ .codeKeyword) :
    reader.resume size (.opened level outer) row = reader.resume size (.items level outer) row := by
  cases row with
  | nil => rfl
  | cons lexeme rest => exact resume_opened reader size (noCode lexeme rfl) rest

/-- The lines behind the head of an object do not begin with code. -/
theorem head_linesOf {sources : List Text} {objects : List (Object κ)}
    (reads : ReadAs limit payload sources objects) (front lead : Text) :
    ∀ lexeme ∈ (ahead lead front.byteSize (linesOf sources)).head?,
      lexeme.kind ≠ .codeKeyword := by
  cases reads with
  | nil =>
      have row := ahead_closeBrace lead front.byteSize []
      intro lexeme member
      rw [linesOf, List.flatMap_nil, List.nil_append, row] at member
      obtain rfl := Option.mem_some.mp member
      change TokenKind.closeBrace ≠ .codeKeyword
      decide
  | cons first rest =>
      rename_i source object sources objects
      obtain ⟨pragma, nested, trailing, row, -⟩ :=
        exists_moved first.1 first.2 front (linesOf sources) lead
      intro lexeme member
      rw [linesOf_cons, row] at member
      cases pragma with
      | none =>
          cases nested with
          | mk keyword =>
              obtain rfl := Option.mem_some.mp member
              rw [keyword.isKind]
              decide
      | some pragma =>
          obtain rfl := Option.mem_some.mp member
          rw [pragma.isKind]
          decide

theorem resume_linesOf {sources : List Text} {objects : List (Object κ)}
    (reads : ReadAs limit payload sources objects) {target : Text} (front lead : Text)
    (level : Level κ) (cut : target = front ++ linesOf sources)
    (suffix : ahead lead front.byteSize (linesOf sources) <:+ all target) :
    (Reader.resume ⟨limit + 1, payload⟩ target.byteSize (.items level [])
        (ahead lead front.byteSize (linesOf sources))).mapError ReadError.fault =
      (level.object.attachAll (objects.map .object)).mapError ReadFault.attach := by
  induction reads generalizing front lead level with
  | nil =>
      rw [linesOf, List.flatMap_nil, List.nil_append, ahead_closeBrace, ahead_nil]
      rfl
  | cons first rest inductionHypothesis =>
      rename_i source object sources objects
      obtain ⟨pragma, nested, trailing, row, lists, admissible, denoted⟩ :=
        exists_moved first.1 first.2 front (linesOf sources) lead
      rw [linesOf_cons] at cut suffix ⊢
      rw [row] at suffix ⊢
      rw [← cut] at denoted
      have nestedSuffix := (List.suffix_append _ _).trans suffix
      have room : ([] : List (Level κ)).length + 1 < limit + 1 := by
        have positive := admissible.room
        rw [List.length_nil]
        omega
      obtain ⟨others, lexemes, nestedRead⟩ :=
        resume_objectTree ⟨limit + 1, payload⟩ target target.byteSize nested pragma [level]
          (ahead trailing (front ++ (source ++ ['\n'])).byteSize (linesOf sources)) admissible
          nestedSuffix
      rw [lexemes, List.cons_append, resume_nested _ _ lists room, nestedRead, denoted, endObject,
        Level.attach, List.map_cons, Object.attachAll, List.foldlM_cons]
      cases attached : level.object.attach (.object object) with
      | error error => rfl
      | ok grown =>
          apply inductionHypothesis (front ++ (source ++ ['\n'])) trailing
            { level with object := grown }
          · rw [cut]
            simp
          · exact (List.suffix_append _ _).trans nestedSuffix

def headOf (name : Text) : Text := "object " ++ (Text.Quoted.encode name ++ " \x7b\n")

theorem nest_eq (name : Text) (sources : List Text) :
    Text.nest name sources = headOf name ++ linesOf sources := by
  unfold Text.nest headOf linesOf
  rw [List.append_assoc, List.append_assoc]

theorem all_headOf (name rest : Text) :
    ∃ (keyword : Terminal .objectKeyword) (literal : Terminal .stringLiteral)
      (opening : Terminal .openBrace),
      all (headOf name ++ rest) =
        keyword.lexeme :: literal.lexeme :: opening.lexeme ::
          ahead ['\n'] (headOf name).byteSize rest ∧
      literal.name? = some name := by
  have cut : headOf name ++ rest =
      'o' :: (['b', 'j', 'e', 'c', 't'] ++
        ' ' :: (Text.Quoted.encode name ++ ' ' :: '\x7b' :: '\n' :: rest)) := by
    unfold headOf
    rw [List.append_assoc, List.append_assoc]
    rfl
  have sizes : (headOf name).byteSize =
      0 + Text.byteSize ['o', 'b', 'j', 'e', 'c', 't'] + Text.byteSize [' '] +
        (Text.Quoted.encode name).byteSize + Text.byteSize [' '] + Text.byteSize ['\x7b'] +
          Text.byteSize ['\n'] := by
    have keyword : Text.byteSize "object " =
        Text.byteSize ['o', 'b', 'j', 'e', 'c', 't'] + Text.byteSize [' '] := rfl
    have bracket : Text.byteSize " \x7b\n" =
        Text.byteSize [' '] + Text.byteSize ['\x7b'] + Text.byteSize ['\n'] := rfl
    unfold headOf
    rw [Text.byteSize_append, Text.byteSize_append, keyword, bracket]
    omega
  have letters : ∀ d ∈ ['b', 'j', 'e', 'c', 't'], Piece.isWordRest d = true :=
    List.all_eq_true.mp rfl
  have isName : ∀ literal : Terminal .stringLiteral,
      literal.lexeme.token.text = Text.Quoted.encode name → literal.name? = some name :=
    fun _ => Terminal.name?_encode
  rw [all_eq_ahead, cut, ahead_word rfl letters (ends_cons rfl _) (by simp),
    ahead_space (c := ' ') rfl, ahead_encode, ahead_space (c := ' ') rfl, ahead_openBrace,
    ahead_space (c := '\n') rfl, ← sizes]
  exact ⟨⟨_, by decide⟩, ⟨_, rfl⟩, ⟨_, rfl⟩, rfl, isName _ rfl⟩

/-- The head of an object leaves its lines to be read as items. -/
theorem read_headOf (reader : Reader κ) (room : 0 < reader.limit) (name : Text) {rest : Text}
    (noCode : ∀ lexeme ∈ (ahead ['\n'] (headOf name).byteSize rest).head?,
      lexeme.kind ≠ .codeKeyword) :
    ∃ nameSpan braceSpan, reader.read (headOf name ++ rest) =
        reader.resume (headOf name ++ rest).byteSize
          (.items ⟨Object.new name, nameSpan, braceSpan⟩ [])
          (ahead ['\n'] (headOf name).byteSize rest) ∧
      ahead ['\n'] (headOf name).byteSize rest <:+ all (headOf name ++ rest) := by
  obtain ⟨keyword, literal, opening, row, named⟩ := all_headOf name rest
  have isKeyword : keyword.lexeme.token.kind = .objectKeyword := keyword.isKind
  have enough : ¬ reader.limit ≤ ([] : List (Level κ)).length := by
    rw [List.length_nil]
    omega
  have keywordStep : reader.step (.start none) keyword.lexeme = .ok (.keyword none []) := by
    simp only [Reader.step, startStep, isKeyword, beginObject, if_neg enough]
  have isName : literal.IsName := by
    rw [Terminal.IsName, named]
    rfl
  have sameName : literal.name = name := by
    rw [Terminal.name, named]
    rfl
  have headRead := resume_head reader (headOf name ++ rest).byteSize isName opening none []
    (ahead ['\n'] (headOf name).byteSize rest)
  refine ⟨literal.lexeme.token.span, opening.lexeme.token.span, ?_, ?_⟩
  · rw [read_eq_resume, row, resume_of_step keywordStep]
    refine headRead.trans ?_
    rw [sameName]
    exact resume_opened_row reader _ noCode
  · rw [row]
    exact ⟨[keyword.lexeme, literal.lexeme, opening.lexeme], rfl⟩

end

end Grammar

open Grammar Reader Lexeme

/-- Reading a text that holds the texts of other objects on lines of their own gives what attaching
these objects gives, or fails as the first attach does that fails. -/
theorem Object.read_nest {options : ReadOptions} (name : Text) {sources : List Text}
    {objects : List (Object Payload)}
    (reads : List.Forall₂ (fun source object =>
      Object.read options source = .ok object ∧ source.InObjectForm) sources objects) :
    (Object.read { options with limit := options.limit + 1 } (Text.nest name sources)).mapError
        ReadError.fault =
      ((Object.new name).attachAll (objects.map .object)).mapError ReadFault.attach := by
  have readAs : ReadAs options.limit (Payload.ofBody options.dialect) sources objects := reads
  obtain ⟨nameSpan, braceSpan, read, suffix⟩ :=
    read_headOf ⟨options.limit + 1, Payload.ofBody options.dialect⟩ (Nat.succ_pos _) name
      (head_linesOf readAs (headOf name) ['\n'])
  rw [nest_eq]
  exact (congrArg _ read).trans
    (resume_linesOf readAs (headOf name) ['\n'] ⟨Object.new name, nameSpan, braceSpan⟩ rfl suffix)

/-- A comment behind the first of two objects, and a pragma in front of the second. -/
theorem Object.read_nest_pair :
    ∃ first second : Object Payload,
      List.Forall₂ (fun source object =>
          Object.read ⟨none, 1⟩ source = .ok object ∧ source.InObjectForm)
        ["object \"B\" \x7b \x7d // \x7d", "/// @use-src 0:'f'\nobject \"C\" \x7b \x7d"]
        [first, second] ∧
      (Object.read ⟨none, 2⟩ (Text.nest "A"
          ["object \"B\" \x7b \x7d // \x7d",
            "/// @use-src 0:'f'\nobject \"C\" \x7b \x7d"])).mapError ReadError.fault =
        ((Object.new "A").attachAll [.object first, .object second]).mapError
          ReadFault.attach := by
  have firstAccepted : (Object.read ⟨none, 1⟩ "object \"B\" \x7b \x7d // \x7d").toOption.isSome =
      true := by
    decide +kernel
  have secondAccepted : (Object.read ⟨none, 1⟩
      "/// @use-src 0:'f'\nobject \"C\" \x7b \x7d").toOption.isSome = true := by
    decide +kernel
  obtain ⟨first, firstRead⟩ := exists_of_isSome firstAccepted
  obtain ⟨second, secondRead⟩ := exists_of_isSome secondAccepted
  have firstForm : Text.InObjectForm "object \"B\" \x7b \x7d // \x7d" := by
    refine ⟨⟨.objectKeyword, "object", 0⟩, Option.mem_def.mpr ?_, rfl⟩
    decide +kernel
  have secondForm : Text.InObjectForm "/// @use-src 0:'f'\nobject \"C\" \x7b \x7d" := by
    refine ⟨⟨.objectKeyword, "object", 19⟩, Option.mem_def.mpr ?_, rfl⟩
    decide +kernel
  have reads : List.Forall₂ (fun source object =>
        Object.read ⟨none, 1⟩ source = .ok object ∧ source.InObjectForm)
      ["object \"B\" \x7b \x7d // \x7d", "/// @use-src 0:'f'\nobject \"C\" \x7b \x7d"]
      [first, second] :=
    .cons ⟨firstRead, firstForm⟩ (.cons ⟨secondRead, secondForm⟩ .nil)
  exact ⟨first, second, reads, Object.read_nest "A" reads⟩

end YulTree

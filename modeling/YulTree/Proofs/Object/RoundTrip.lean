import YulTree.Proofs.Object.Built
import YulTree.Proofs.Reader.Soundness
import YulTree.Proofs.Reader.Stable

/-!
# Printing and reading

A tree that was built is read from its text (`read_print_of_built`), and a tree that was read is
read again from its text (`read_display_of_read`).
-/

namespace YulTree

namespace Object

mutual

/-- A tree without its tables of sources. -/
def withoutTables {κ : Type} : Object κ → Object κ
  | { name, code, analysis, debug := _, slot, children } =>
      { name, code, analysis, debug := none, slot, children := withoutTablesAll children }

def withoutTablesAll {κ : Type} : List (Node κ) → List (Node κ)
  | [] => []
  | .data entry :: rest => .data entry :: withoutTablesAll rest
  | .object nested :: rest => .object (withoutTables nested) :: withoutTablesAll rest

end

theorem codeField_reread (code : Option Payload) (dialect : Option Dialect) :
    codeField (code.map fun payload => { payload with dialect }) = codeField code := by
  cases code <;> rfl

theorem sourcesField_rereadDebug (debug : Option DebugBundle) :
    sourcesField (rereadDebug true debug) = sourcesField debug := by
  unfold sourcesField rereadDebug
  cases debug.bind DebugBundle.table <;> rfl

mutual

/-- The tree that is read from a text shows what the printed tree showed, but for tables that
were not printed. -/
theorem toJson_reread (dialect : Option Dialect) (useSrc : Bool) :
    ∀ (object : Object Payload) (slot : Option Nat),
      (object.reread dialect useSrc slot).toJson =
        (if useSrc then object else object.withoutTables).toJson
  | { name, code, analysis, debug, slot := _, children }, slot => by
      have childrenJson := toJsonAll_rereadAll dialect useSrc children 0
      cases useSrc with
      | true =>
          rw [reread, toJson, childrenJson, codeField_reread, sourcesField_rereadDebug]
          rfl
      | false =>
          rw [reread, toJson, childrenJson, codeField_reread]
          rfl

theorem toJsonAll_rereadAll (dialect : Option Dialect) (useSrc : Bool) :
    ∀ (children : List (Node Payload)) (slot : Nat),
      toJsonAll (rereadAll dialect useSrc slot children) =
        toJsonAll (if useSrc then children else withoutTablesAll children)
  | [], _ => by cases useSrc <;> rfl
  | .data entry :: rest, slot => by
      rw [rereadAll, toJsonAll, toJsonAll_rereadAll dialect useSrc rest (slot + 1)]
      cases useSrc <;> rfl
  | .object nested :: rest, slot => by
      rw [rereadAll, toJsonAll, toJson_reread dialect useSrc nested (some slot),
        toJsonAll_rereadAll dialect useSrc rest (slot + 1)]
      cases useSrc <;> rfl

end

/-- A tree that was built from closed texts is read from its text, whatever annotations are
selected; only tables that were not printed are missing. -/
theorem read_print_of_built {object : Object Payload} (built : object.Built)
    (shallow : object.levels ≤ 256) (closed : object.EveryCode Payload.IsClosedText)
    (selection : Selection) (sources : SourceProvider) :
    ∃ again, Object.read .standard (object.print selection sources) = .ok again ∧
      again.toJson = (if selection.useSrc then object else object.withoutTables).toJson := by
  have printable : object.Printable ReadOptions.standard.limit :=
    printable_of_built built shallow closed
  exact ⟨_, Grammar.read_print printable selection sources,
    toJson_reread ReadOptions.standard.dialect selection.useSrc object none⟩

/-- An object with a code block and an object in it is read from its text. -/
theorem read_print_of_built_attached :
    ∃ object : Object Payload, object.Built ∧ object.levels = 2 ∧
      object.EveryCode Payload.IsClosedText ∧ object.code.isSome ∧
      ∃ again, Object.read .standard (object.print .nothing SourceProvider.absent) = .ok again ∧
        again.toJson = object.withoutTables.toJson := by
  have closed : (Payload.ofBody none " \x7b \x7d // \x7d\n").IsClosedText := by
    refine ⟨" \x7b \x7d // \x7d\n", rfl, ⟨.openBrace, ['\x7b'], 0⟩, ⟨.closeBrace, ['\x7d'], 11⟩,
      [⟨.whitespace, ['\n'], 1⟩, ⟨.openBrace, ['\x7b'], 2⟩, ⟨.whitespace, [' '], 3⟩,
        ⟨.closeBrace, ['\x7d'], 4⟩, ⟨.whitespace, [' '], 5⟩, ⟨.lineComment, "// \x7d", 6⟩,
        ⟨.whitespace, ['\n'], 10⟩], ?_, rfl, rfl, balanced_iff.mpr rfl⟩
    decide +kernel
  have attached :
      ((Object.new "A").setCode (Payload.ofBody none " \x7b \x7d // \x7d\n") none).attach
        (.object ((Object.new "B").setDebug ⟨some {}⟩)) =
        .ok (((Object.new "A").setCode (Payload.ofBody none " \x7b \x7d // \x7d\n") none).grow
          (.object ((Object.new "B").setDebug ⟨some {}⟩))) :=
    attach_eq_ok_iff.mpr ⟨by decide, by decide, by decide, rfl⟩
  have built := Built.attachObject (.setCode _ none (.new "A")) (.setDebug _ (.new "B")) attached
  have every : (((Object.new "A").setCode (Payload.ofBody none " \x7b \x7d // \x7d\n") none).grow
      (.object ((Object.new "B").setDebug ⟨some {}⟩))).EveryCode Payload.IsClosedText := by
    refine ⟨?_, ⟨fun payload found => (by cases found), trivial⟩, trivial⟩
    intro payload member
    exact Option.mem_some.mp member ▸ closed
  exact ⟨_, built, rfl, every, rfl,
    read_print_of_built built (by decide) every .nothing SourceProvider.absent⟩

/-- A tree that was read is read from what is displayed of it. -/
theorem read_display {options : ReadOptions} {source : Text} {object : Object Payload}
    (read : Object.read options source = .ok object) :
    Object.read options object.display = .ok object := by
  obtain ⟨tree, derived, admissible, rfl⟩ := Grammar.exists_derivation_of_read read
  exact Grammar.read_display_of_derivation derived admissible

/-- What is displayed of a tree that was read is read as a tree that shows and displays the
same. -/
theorem read_display_of_read {options : ReadOptions} {source : Text} {object : Object Payload}
    (read : Object.read options source = .ok object) :
    ∃ again, Object.read options object.display = .ok again ∧
      again.toJson = object.toJson ∧ again.display = object.display :=
  ⟨object, read_display read, rfl, rfl⟩

/-- So it is with single quotation marks, and with a brace in a comment. -/
theorem read_display_of_read_quoted :
    ∃ object again,
      Object.read .standard "object 'A' \x7b code \x7b /* \x7d */ \x7d data \"d\" 'x' \x7d" =
        .ok object ∧
      Object.read .standard object.display = .ok again ∧
      again.toJson = object.toJson ∧ again.display = object.display := by
  have accepted :
      (Object.read .standard
        "object 'A' \x7b code \x7b /* \x7d */ \x7d data \"d\" 'x' \x7d").toOption.isSome =
        true := by
    decide +kernel
  cases read : Object.read .standard
      "object 'A' \x7b code \x7b /* \x7d */ \x7d data \"d\" 'x' \x7d" with
  | error error =>
      rw [read] at accepted
      cases accepted
  | ok object =>
      obtain ⟨again, readAgain, sameJson, sameDisplay⟩ := read_display_of_read read
      exact ⟨object, again, rfl, readAgain, sameJson, sameDisplay⟩

end Object

end YulTree

import Mathlib.Logic.Relation
import PxdStub.Proofs.AtomicGeneration

/-!
Conversions as processes. A process asks for one operation on files after the other, and goes on
with the answers. Processes that share a tree of files take turns in any order, and each operation
is carried out as a whole.
-/

namespace PxdStub

/-- An operation on files. -/
inductive FileCall where
  | readText (path : Path)
  | writeText (path : Path) (text : String)
  | makeFolders (path : Path)
  | isFile (path : Path)
  | isFolder (path : Path)
  | glob (pattern : List Char)

namespace FileCall

abbrev Answer : FileCall → Type
  | readText _ => Except FileError String
  | writeText _ _ => Except FileError Unit
  | makeFolders _ => Except FileError Unit
  | isFile _ => Bool
  | isFolder _ => Bool
  | glob _ => Except PatternError (List (Except GlobError Path))

/-- The answer to a call on a tree of files, and what the call leaves of the tree. -/
def answer : (call : FileCall) → StateM FileTree call.Answer
  | readText path => Files.readText path
  | writeText path text => Files.writeText path text
  | makeFolders path => Files.makeFolders path
  | isFile path => Files.isFile path
  | isFolder path => Files.isFolder path
  | glob pattern => Files.glob pattern

end FileCall

inductive Process (α : Type) where
  | done (value : α)
  | ask (call : FileCall) (next : call.Answer → Process α)

namespace Process

variable {α β : Type}

def bind : Process α → (α → Process β) → Process β
  | done value, rest => rest value
  | ask call next, rest => ask call fun answer => (next answer).bind rest

instance : Monad Process where
  pure := done
  bind := bind

theorem bind_done (process : Process α) : process.bind done = process := by
  induction process with
  | done value => rfl
  | ask call next ih => simp only [bind, ih]

theorem bind_assoc {γ : Type} (process : Process α) (rest : α → Process β) (more : β → Process γ) :
    (process.bind rest).bind more = process.bind fun value => (rest value).bind more := by
  induction process with
  | done value => rfl
  | ask call next ih => simp only [bind, ih]

instance : LawfulMonad Process :=
  LawfulMonad.mk' Process bind_done (fun _ _ => rfl) bind_assoc

instance : Files Process where
  readText path := ask (.readText path) done
  writeText path text := ask (.writeText path text) done
  makeFolders path := ask (.makeFolders path) done
  isFile path := ask (.isFile path) done
  isFolder path := ask (.isFolder path) done
  glob pattern := ask (.glob pattern) done

/-! ### A process on its own -/

/-- Answers a process call by call to its end. -/
def perform : Process α → StateM FileTree α
  | done value => return value
  | ask call next => do
      let answer ← call.answer
      (next answer).perform

theorem perform_bind (process : Process α) (rest : α → Process β) :
    (process >>= rest).perform = process.perform >>= fun value => (rest value).perform := by
  induction process with
  | done value => rfl
  | ask call next ih =>
      show (do let answer ← call.answer; ((next answer) >>= rest).perform) = _
      simp only [ih]
      rfl

theorem perform_ask (call : FileCall) : (ask call done).perform = call.answer :=
  bind_pure call.answer

theorem perform_bind_congr {process : Process α} {run : StateM FileTree α}
    {rest : α → Process β} {more : α → StateM FileTree β} (first : process.perform = run)
    (second : ∀ value, (rest value).perform = more value) :
    (process >>= rest).perform = run >>= more := by
  rw [perform_bind, first]
  exact congrArg _ (funext second)

theorem perform_write (job : Job) (stub : Stub) :
    (job.write stub : Process _).perform = job.write stub := by
  refine perform_bind_congr (perform_ask (.makeFolders job.folder)) ?_
  rintro (cause | ok)
  · rfl
  · refine perform_bind_congr (perform_ask (.writeText job.stub stub.render)) ?_
    rintro (cause | ok)
    · rfl
    · rfl

theorem perform_conclude (job : Job) (options : Options) (text : String)
    (source? : Option (Except FileError String)) :
    (job.conclude options text source? : Process _).perform =
      job.conclude options text source? := by
  unfold Job.conclude
  rcases job.prepare options text source? with ⟨log, error | ⟨stub, summary⟩⟩
  · rfl
  · refine perform_bind_congr (perform_write job stub) ?_
    rintro (error | ok)
    · rfl
    · rfl

theorem perform_generate (job : Job) (options : Options) :
    (job.generate options : Process _).perform = job.generate options := by
  rw [Job.generate_eq, Job.generate_eq]
  refine perform_bind_congr (perform_ask (.readText job.header)) ?_
  rintro (cause | text)
  · rfl
  · refine perform_bind_congr (perform_ask (.isFile job.source)) ?_
    rintro (there | there)
    · exact perform_conclude job options text none
    · exact perform_bind_congr (perform_ask (.readText job.source)) fun read =>
        perform_conclude job options text (some read)

theorem perform_convert (options : Options) (header : Path) :
    (convert options header : Process _).perform = convert options header := by
  unfold convert
  split
  · rfl
  · rename_i job known
    exact perform_bind_congr (perform_generate job options) fun _ => rfl

/-! ### Processes that share a tree -/

/-- A pool of processes, and the tree of files that they share. -/
abbrev Pool (α : Type) := List (Process α) × FileTree

/-- One process of a pool goes on by one call. -/
inductive Step : Pool α → Pool α → Prop
  | call (before after : List (Process α)) (call : FileCall) (next : call.Answer → Process α)
      (tree : FileTree) :
      Step (before ++ ask call next :: after, tree)
        (before ++ next (call.answer.run tree).1 :: after, (call.answer.run tree).2)

/-- Any number of steps, in any order of the processes. -/
def Steps : Pool α → Pool α → Prop :=
  Relation.ReflTransGen Step

/-- A process can run to its end while the others wait. -/
theorem steps_perform (before after : List (Process α)) (process : Process α) (tree : FileTree) :
    Steps (before ++ process :: after, tree)
      (before ++ done (process.perform.run tree).1 :: after, (process.perform.run tree).2) := by
  induction process generalizing tree with
  | done value => exact .refl
  | ask call next ih =>
      exact .head (.call before after call next tree)
        (ih (call.answer.run tree).1 (call.answer.run tree).2)

end Process

/-- The log and the outcome of converting one header. -/
abbrev Conversion := List LogLine × Except StubError Summary

/-- The processes of a batch come to their ends in some order of their calls. -/
def Finishes (options : Options) (headers : List Path) (tree : FileTree)
    (results : List Conversion) (after : FileTree) : Prop :=
  Process.Steps (headers.map (convert options), tree) (results.map Process.done, after)

open Process in
/-- To convert one header after the other is one of the orders. -/
theorem finishes_convertAll (options : Options) (headers : List Path) (tree : FileTree) :
    Finishes options headers tree
      ((convertAll options headers : StateM FileTree _).run tree).1
      ((convertAll options headers : StateM FileTree _).run tree).2 := by
  -- The processes in front are done, and the rest run from the tree that those left.
  have steps (results : List Conversion) :
      Process.Steps (results.map Process.done ++ headers.map (convert options), tree)
        ((results ++ ((convertAll options headers : StateM FileTree _).run tree).1).map
            Process.done,
          ((convertAll options headers : StateM FileTree _).run tree).2) := by
    induction headers generalizing tree results with
    | nil =>
        have whole : (convertAll options [] : StateM FileTree _).run tree = ([], tree) := rfl
        rw [whole, List.map_nil, List.append_nil, List.append_nil]
        exact .refl
    | cons header rest ih =>
        rcases first : (convert options header : StateM FileTree _).run tree with ⟨result, next⟩
        rcases later : (convertAll options rest : StateM FileTree _).run next with ⟨others, after⟩
        have whole : (convertAll options (header :: rest) : StateM FileTree _).run tree =
            (result :: others, after) := by
          rw [convertAll, List.mapM_cons, FileTree.run_bind first]
          exact FileTree.run_bind later
        have ahead := steps_perform (results.map done) (rest.map (convert options))
          (convert options header) tree
        rw [perform_convert, first] at ahead
        have behind := ih next (results ++ [result])
        rw [later, List.map_append, List.append_assoc, List.append_assoc] at behind
        rw [whole]
        exact ahead.trans behind
  exact steps []

end PxdStub

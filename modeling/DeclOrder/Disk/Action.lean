import DeclOrder.Disk.Basic

/-! What a run does with files and the clock, as a value: one request after another, each with what is
done about its answer. `Action.on` answers them from a disk. A run that panics ends without a value. -/
namespace DeclOrder

inductive Action (α : Type) where
  | done (value : α)
  | survey (path : String) (next : Option (String × Tree Unit) → Action α)
  | read (path : String) (next : Except FileError ByteArray → Action α)
  | save (path : String) (content : ByteArray) (next : Except SaveError Unit → Action α)
  | clock (next : Timestamp → Action α)
  | crash

namespace Action
variable {α β : Type}

def bind : Action α → (α → Action β) → Action β
  | .done value, f => f value
  | .survey path next, f => .survey path (fun answer => (next answer).bind f)
  | .read path next, f => .read path (fun answer => (next answer).bind f)
  | .save path content next, f => .save path content (fun answer => (next answer).bind f)
  | .clock next, f => .clock (fun answer => (next answer).bind f)
  | .crash, _ => .crash

instance : Monad Action where
  pure := .done
  bind := bind

def lookAt (path : String) : Action (Option (String × Tree Unit)) := .survey path .done

def readText (path : String) : Action (Except FileError String) :=
  .read path (fun answer => .done (answer.bind textOf))

def saveText (path text : String) : Action (Except SaveError Unit) := .save path text.toUTF8 .done

def now : Action Timestamp := .clock .done

/-- The value of a computation that panics where it has none. -/
def certain : Option α → Action α
  | some value => .done value
  | none => .crash

def on : Action α → Disk → Option α × Disk
  | .done value, d => (some value, d)
  | .survey path next, d => (next (d.survey path)).on d
  | .read path next, d => (next (d.read path)).on d
  | .save path content next, d =>
      let (after, answer) := d.save path content
      (next answer).on after
  | .clock next, d => (next d.now).on d.ticked
  | .crash, d => (none, d)

theorem onPure (value : α) (d : Disk) : (pure value : Action α).on d = (some value, d) := rfl

theorem onLookAt (path : String) (d : Disk) : (lookAt path).on d = (some (d.survey path), d) := rfl

theorem onReadText (path : String) (d : Disk) : (readText path).on d = (some ((d.read path).bind textOf), d) := rfl

theorem onNow (d : Disk) : now.on d = (some d.now, d.ticked) := rfl

theorem onBind (a : Action α) (f : α → Action β) (d : Disk) :
    (a >>= f).on d = (a.on d).1.elim (none, (a.on d).2) (fun value => (f value).on (a.on d).2) := by
  show (a.bind f).on d = _
  induction a generalizing d with
  | done value => rfl
  | survey path next ih => exact ih _ _
  | read path next ih => exact ih _ _
  | save path content next ih => exact ih _ _
  | clock next ih => exact ih _ _
  | crash => rfl

theorem onBindSome {a : Action α} {d after : Disk} {value : α} (ran : a.on d = (some value, after)) (f : α → Action β) :
    (a >>= f).on d = (f value).on after := by
  rw [onBind, ran]
  rfl

theorem onBindNone {a : Action α} {d after : Disk} (crashed : a.on d = (none, after)) (f : α → Action β) :
    (a >>= f).on d = (none, after) := by
  rw [onBind, crashed]
  rfl

end Action
end DeclOrder

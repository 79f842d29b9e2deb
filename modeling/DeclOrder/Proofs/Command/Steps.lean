import DeclOrder.Command.Run
import DeclOrder.Proofs.Disk.Saving
import DeclOrder.Proofs.Report.Storing

/-! Steps of commands, as they are taken on a disk: one after the other, until one of them fails. -/
namespace DeclOrder.Command

section Order
variable {α β ε φ : Type}

theorem onThen (x : ExceptT ε Action α) (f : α → ExceptT ε Action β) (d : Disk) :
    (x >>= f).run.on d = match x.run.on d with
      | (some (.ok a), after) => (f a).run.on after
      | (some (.error e), after) => (some (.error e), after)
      | (none, after) => (none, after) := by
  have bound : (x >>= f).run = x.run >>= ExceptT.bindCont f := rfl
  rw [bound, Action.onBind]
  rcases x.run.on d with ⟨_ | e | a, after⟩ <;> rfl

theorem onAttempt (wrap : ε → φ) (a : Action (Except ε α)) (d : Disk) :
    (attempt wrap a).run.on d = ((a.on d).1.map (·.mapError wrap), (a.on d).2) := by
  show (a >>= fun answer => pure (answer.mapError wrap)).on d = _
  rw [Action.onBind]
  rcases a.on d with ⟨_ | answer, after⟩ <;> rfl

end Order

/-! Stages of a check. -/

def ConfigSays (d : Disk) (root config text : String) : Prop :=
  let answer := (d.read (String.ofList (Path.join root.toList config.toList))).bind textOf
  answer = .ok text ∨ answer = .error .notFound ∧ text = ""

/-- What a check goes by: the root of the module, the policy and the files. -/
structure Reads (o : Options) (d : Disk) (root : String) (policy : Policy) (m : Module) : Prop where
  directory : ∃ entries, d.survey o.root = some (root, .directory entries)
  config : ∃ text, ConfigSays d root o.config text ∧ Check.settle text o.overrides = .ok policy
  files : ((Source.loadModule root).on d).1 = some (some m)

theorem configOnce {d : Disk} {root config text other : String} (told : ConfigSays d root config text)
    (toldElse : ConfigSays d root config other) : text = other := by
  rcases told with read | ⟨missing, rfl⟩ <;> rcases toldElse with read' | ⟨missing', rfl⟩
  · rw [read] at read'
    exact Except.ok.inj read'
  · rw [read] at missing'
    cases missing'
  · rw [missing] at read'
    cases read'
  · rfl

theorem Reads.once {o : Options} {d : Disk} {root root' : String} {policy policy' : Policy} {m m' : Module}
    (reads : Reads o d root policy m) (readsElse : Reads o d root' policy' m') :
    root = root' ∧ policy = policy' ∧ m = m' := by
  obtain ⟨⟨entries, seen⟩, ⟨text, told, settled⟩, files⟩ := reads
  obtain ⟨⟨entries', seen'⟩, ⟨text', told', settled'⟩, files'⟩ := readsElse
  rw [seen] at seen'
  cases seen'
  obtain rfl := configOnce told told'
  rw [settled] at settled'
  rw [files] at files'
  cases settled'
  cases files'
  exact ⟨rfl, rfl, rfl⟩

theorem findRootOn (path : String) (d : Disk) : ∃ answer, (findRoot path).run.on d = (some answer, d) ∧
    ∀ root, answer = .ok root ↔ ∃ entries, d.survey path = some (root, .directory entries) := by
  have asked : (findRoot path).run.on d = (Action.lookAt path >>= _).on d := rfl
  rw [asked, Action.onBindSome (Action.onLookAt path d)]
  rcases d.survey path with _ | ⟨root, content | entries⟩
  · exact ⟨_, rfl, fun root => ⟨nofun, nofun⟩⟩
  · exact ⟨_, rfl, fun root => ⟨nofun, nofun⟩⟩
  · refine ⟨_, rfl, fun other => ⟨fun same => ⟨entries, ?_⟩, fun ⟨_, same⟩ => ?_⟩⟩
    · cases same
      rfl
    · cases same
      rfl

theorem configTextOn (root config : String) (d : Disk) :
    ∃ answer, (configText root config).run.on d = (some answer, d) ∧
      ∀ text, answer = .ok text ↔ ConfigSays d root config text := by
  have asked : (configText root config).run.on d =
      (Action.readText (String.ofList (Path.join root.toList config.toList)) >>= _).on d := rfl
  rw [asked, Action.onBindSome (Action.onReadText _ d)]
  unfold ConfigSays
  dsimp only
  split
  · rename_i found read
    rw [read]
    refine ⟨_, rfl, fun text => ⟨fun same => .inl (congrArg Except.ok (Except.ok.inj same)), fun told => ?_⟩⟩
    rcases told with read | ⟨missing, -⟩
    · exact congrArg Except.ok (Except.ok.inj read)
    · cases missing
  · rename_i missing
    rw [missing]
    refine ⟨_, rfl, fun text => ⟨fun same => .inr ⟨rfl, (Except.ok.inj same).symm⟩, fun told => ?_⟩⟩
    rcases told with read | ⟨-, rfl⟩
    · cases read
    · rfl
  · rename_i e other failed
    rw [failed]
    refine ⟨_, rfl, fun text => ⟨nofun, fun told => ?_⟩⟩
    rcases told with read | ⟨missing, -⟩
    · cases read
    · exact (other (Except.error.inj missing)).elim

/-- A check fails before its files are looked at, or it does what the rules make of the module. -/
theorem checkRunOn (root text : String) (overrides : Overrides) (d : Disk) :
    (∃ e, (Check.run root text overrides).on d = (some (.error e), d.ticked) ∧
      ∀ policy m, Check.settle text overrides = .ok policy → ((Source.loadModule root).on d).1 ≠ some (some m)) ∨
    ∃ policy m, Check.settle text overrides = .ok policy ∧ ((Source.loadModule root).on d).1 = some (some m) ∧
      (Check.run root text overrides).on d = match Check.evaluated policy m with
        | none => (none, d.ticked)
        | some r => (some (.ok (.ofDomain d.now d.ticked.now r, policy)), d.ticked.ticked) := by
  have loaded := Source.loadModuleOn d root
  have loadedLater : (Source.loadModule root).on d.ticked = (some (Source.moduleOn d root), d.ticked) :=
    Source.loadModuleOn d.ticked root
  rw [loaded]
  unfold Check.run
  rw [Action.onBindSome (Action.onNow d)]
  cases settled : Check.settle text overrides with
  | error e => exact .inl ⟨e, rfl, nofun⟩
  | ok policy =>
      dsimp only
      rw [Action.onBindSome loadedLater]
      cases Source.moduleOn d root with
      | none => exact .inl ⟨_, rfl, fun _ _ _ => nofun⟩
      | some m =>
          refine .inr ⟨policy, m, rfl, rfl, ?_⟩
          dsimp only
          cases done : Check.evaluated policy m with
          | none => rfl
          | some r => rfl

theorem onSaveText (path text : String) (d : Disk) :
    (Action.saveText path text).on d = (some (d.save path text.toUTF8).2, (d.save path text.toUTF8).1) := rfl

theorem saveReportOn (path : String) (r : Report) (d : Disk) : (saveReport path r).run.on d = match r.written with
    | .error e => (some (.error (.reportNotWritten e)), d)
    | .ok text => (some ((d.save path text.toUTF8).2.mapError .reportNotSaved), (d.save path text.toUTF8).1) := by
  unfold saveReport
  rw [onThen, onAttempt, Action.onPure]
  cases r.written with
  | error e => rfl
  | ok text => exact onAttempt _ _ d

theorem saveReportAnswers (path : String) (r : Report) (d : Disk) :
    ∃ answer, ((saveReport path r).run.on d).1 = some answer := by
  rw [saveReportOn]
  cases r.written <;> exact ⟨_, rfl⟩

end DeclOrder.Command

import OtTcpListener.Foundations.History
import OtTcpListener.Service.Controller

/-!
# The command line

`main` leaves all to `QtServiceBase::exec`. The first argument may ask to install the service, to
uninstall it, or to send a command to the one that runs. If it does neither, what happens depends on
the environment: a process with `QTSERVICE_RUN` is the service, and any other one installs the
service where that has not been done, asks for a running one, and if none answers starts itself once
more, detached and with `QTSERVICE_RUN`.

So a process that runs the service has mostly been started by another process. However processes and
controllers interleave, no more services run than somebody has asked for, each has the arguments
that were given, and a detached process is nothing but the service (`services_run`).

What has been installed is in the settings. A controller reads from there the file and the
description of the first installation that has not been undone. It never reads the startup type,
which is written under one key and read under another (`registered_run`).
-/

namespace OtTcpListener

open History

/-- A number that `toInt` reads is an `int`. -/
theorem QString.toInt_bounds (s : List Char) : -2 ^ 31 ≤ toInt s ∧ toInt s < 2 ^ 31 := by
  unfold toInt
  extract_lets s digits n value
  by_cases h : digits ≠ [] ∧ digits.all Char.isDigit ∧ -2 ^ 31 ≤ value ∧ value < 2 ^ 31
  · rw [if_pos h]
    exact h.2.2
  · rw [if_neg h]
    decide

namespace Service

/-! ## The settings -/

/-- The settings in the group of a service. -/
abbrev Group := QString → Option QString

/-- `QSettings::value` in the group of the service, as a text. -/
def value (settings : Option Group) (key : QString) : QString := (settings.bind (· key)).getD ""

inductive StartupType where
  | AutoStartup
  | ManualStartup
  deriving DecidableEq

def StartupType.toInt : StartupType → ℤ
  | .AutoStartup => 0
  | .ManualStartup => 1

namespace QtServiceController

def isInstalled (settings : Option Group) : Bool := settings.isSome

def serviceDescription (settings : Option Group) : QString := value settings "description"

/-- As the number that is cast to a `StartupType`. -/
def startupType (settings : Option Group) : ℤ :=
  QString.toInt (value settings "startupType").toList

def serviceFilePath (settings : Option Group) : QString := value settings "path"

/-- Whether it succeeds, and the settings. -/
def uninstall (writable : Bool) (settings : Option Group) : Bool × Option Group :=
  if writable then (true, none) else (false, settings)

end QtServiceController

/-! ## Processes -/

/-- What a subclass of `QtServiceBase` sets. -/
structure ServiceBase where
  serviceDescription : QString
  startupType : StartupType

/-- What the constructor of `OtService` sets. -/
def OtService : ServiceBase := ⟨"This is ot service. ", .AutoStartup⟩

/-- A process that calls `exec`, and what it meets. -/
structure Process where
  args : List QString
  /-- Whether the variable is in the environment. -/
  QTSERVICE_RUN : Bool
  /-- What `filePath` finds. -/
  filePath : QString
  /-- The settings can be written. -/
  writable : Bool
  /-- What `sendCmd` returns. -/
  sendCmd : Order → Bool
  /-- What `run` returns. -/
  run : ℤ

inductive Effect where
  /-- Of `isRunning`. -/
  | connectTo
  | sendCmd (o : Order)
  | run (asService : Bool) (argList : List QString)
  | startDetached (program : QString) (arguments : List QString)
  deriving DecidableEq

structure Outcome where
  exitCode : ℤ
  settings : Option Group
  effects : List Effect

variable (base : ServiceBase)

open QtServiceController

/-- `QtServiceBasePrivate::install`, with the settings that it writes. -/
def install (p : Process) (settings : Option Group) (_account _password : QString) :
    Bool × Option Group :=
  if p.writable then
    let path := Function.update (settings.getD fun _ ↦ none) "path" (some p.filePath)
    let description := Function.update path "description" (some base.serviceDescription)
    (true, some (Function.update description "automaticStartup"
      (some (QString.number base.startupType.toInt))))
  else (false, settings)

/-- `QtServiceBasePrivate::start`. -/
def start (p : Process) : List Effect :=
  if p.sendCmd .alive then [.sendCmd .alive]
  else [.sendCmd .alive, .startDetached p.filePath p.args.tail]

/-- The number behind `-command`. -/
def code (args : List QString) : {n : ℤ // -2 ^ 31 ≤ n ∧ n < 2 ^ 31} :=
  match args[2]? with
  | some s => ⟨QString.toInt s.toList, QString.toInt_bounds _⟩
  | none => ⟨0, by decide⟩

/-- The first part of `exec`, when there is a first argument. `none`: it is not recognized. -/
def execArgument (a : QString) (p : Process) (settings : Option Group) : Option Outcome :=
  if a = "-i" ∨ a = "-install" then
    if !isInstalled settings then
      let (installed, settings) := install base p settings (p.args.getD 2 "") (p.args.getD 3 "")
      some ⟨if installed then 0 else -1, settings, []⟩
    else some ⟨0, settings, []⟩
  else if a = "-u" ∨ a = "-uninstall" then
    if isInstalled settings then
      let (uninstalled, settings) := uninstall p.writable settings
      some ⟨if uninstalled then 0 else -1, settings, []⟩
    else some ⟨0, settings, []⟩
  else if a = "-v" ∨ a = "-version" then some ⟨0, settings, [.connectTo]⟩
  else if a = "-e" ∨ a = "-exec" then some ⟨p.run, settings, [.run false (p.args.eraseIdx 1)]⟩
  else if a = "-t" ∨ a = "-terminate" then some ⟨0, settings, [.sendCmd .terminate]⟩
  else if a = "-p" ∨ a = "-pause" then some ⟨0, settings, [.sendCmd .pause]⟩
  else if a = "-r" ∨ a = "-resume" then some ⟨0, settings, [.sendCmd .resume]⟩
  else if a = "-c" ∨ a = "-command" then some ⟨0, settings, [.sendCmd (.num (code p.args))]⟩
  else if a = "-h" ∨ a = "-help" then some ⟨0, settings, []⟩
  else none

/-- The rest of `exec`. -/
def execStart (p : Process) (settings : Option Group) : Outcome :=
  if p.QTSERVICE_RUN then ⟨p.run, settings, [.run true p.args]⟩
  else if isInstalled settings then ⟨0, settings, start p ++ [.connectTo]⟩
  else
    let (installed, settings) := install base p settings (p.args.getD 2 "") (p.args.getD 3 "")
    if installed then ⟨0, settings, start p ++ [.connectTo]⟩ else ⟨-1, settings, []⟩

/-- `QtServiceBase::exec`. -/
def exec (p : Process) (settings : Option Group) : Outcome :=
  (p.args[1]?.bind fun a ↦ execArgument base a p settings).getD (execStart base p settings)

/-! ### What a process does -/

/-- The arguments that `exec` recognizes. -/
def serviceArguments : List QString :=
  ["-i", "-install", "-u", "-uninstall", "-v", "-version", "-e", "-exec", "-t", "-terminate", "-p",
    "-pause", "-r", "-resume", "-c", "-command", "-h", "-help"]

/-- The first argument is recognized. -/
def Recognized (args : List QString) : Prop := ∃ a ∈ serviceArguments, args[1]? = some a

instance (args : List QString) : Decidable (Recognized args) :=
  inferInstanceAs (Decidable (∃ a ∈ serviceArguments, args[1]? = some a))

/-- It does not matter which program is started. -/
theorem recognized_cons_tail (program : QString) (args : List QString) :
    Recognized (program :: args.tail) ↔ Recognized args := by
  cases args with
  | nil => rfl
  | cons a args => rfl

/-- A process that has been detached and has not called `main` yet. -/
structure Detached where
  program : QString
  arguments : List QString
  /-- Whether the variable is in the environment it was given. -/
  QTSERVICE_RUN : Bool

namespace Effect

/-- A service begins. -/
def isService : Effect → Bool
  | .run asService _ => asService
  | _ => false

/-- The process that is detached. -/
def child : Effect → Option Detached
  | .startDetached program arguments => some ⟨program, arguments, true⟩
  | _ => none

/-- The effect starts no service, here or elsewhere. -/
def Harmless (e : Effect) : Prop := e.isService = false ∧ e.child = none

end Effect

namespace Process

variable (p : Process)

/-- What is written to the settings of a service that is not installed. -/
def entry : Group :=
  let path := Function.update (fun _ ↦ none) "path" (some p.filePath)
  let description := Function.update path "description" (some base.serviceDescription)
  Function.update description "automaticStartup" (some (QString.number base.startupType.toInt))

/-- The settings after an attempt to install a service that may be installed. -/
def register (settings : Option Group) : Option Group :=
  if p.writable then some (settings.getD (p.entry base)) else settings

/-- The settings after a recognized argument. -/
def change (a : QString) (settings : Option Group) : Option Group :=
  if a = "-i" ∨ a = "-install" then p.register base settings
  else if a = "-u" ∨ a = "-uninstall" then (uninstall p.writable settings).2
  else settings

end Process

variable {base}

theorem install_none (p : Process) (account password : QString) :
    install base p none account password = (p.writable, p.register base none) := by
  rw [install, Process.register]
  cases p.writable <;> rfl

theorem register_some (p : Process) (g : Group) : p.register base (some g) = some g := by
  rw [Process.register]
  split <;> rfl

/-- What becomes of a recognized argument: no service begins, here or elsewhere. -/
theorem execArgument_eq_some {a : QString} {p : Process} {settings : Option Group} {o : Outcome}
    (h : execArgument base a p settings = some o) :
    o.settings = p.change base a settings ∧
      ∀ e ∈ o.effects, e.Harmless := by
  have hnone : ∀ e ∈ ([] : List Effect), e.Harmless := List.forall_mem_nil _
  have hone {e : Effect} (he : e.Harmless) : ∀ e' ∈ [e], e'.Harmless :=
    List.forall_mem_singleton.mpr he
  unfold execArgument at h
  rw [Process.change]
  split_ifs at h with hi hnot hu hinstalled hv he ht hp hr hc hh
  · obtain rfl : settings = none := by simpa [isInstalled] using hnot
    rw [install_none] at h
    obtain rfl := Option.some.inj h
    exact ⟨(if_pos hi).symm, hnone⟩
  · obtain ⟨g, rfl⟩ : ∃ g, settings = some g :=
      Option.ne_none_iff_exists'.mp (by simpa [isInstalled] using hnot)
    obtain rfl := Option.some.inj h
    exact ⟨by rw [if_pos hi, register_some], hnone⟩
  · have ho := Option.some.inj h
    have hsettings : (uninstall p.writable settings).2 = o.settings := congrArg Outcome.settings ho
    have heffects : [] = o.effects := congrArg Outcome.effects ho
    exact ⟨by rw [if_neg hi, if_pos hu, hsettings], heffects ▸ hnone⟩
  · obtain rfl : settings = none := by simpa [isInstalled] using hinstalled
    obtain rfl := Option.some.inj h
    exact ⟨by rw [if_neg hi, if_pos hu, uninstall]; split <;> rfl, hnone⟩
  all_goals
    obtain rfl := Option.some.inj h
    refine ⟨by rw [if_neg hi, if_neg hu], ?_⟩
    first | exact hnone | exact hone ⟨rfl, rfl⟩

theorem execArgument_eq_none_iff {a : QString} {p : Process} {settings : Option Group} :
    execArgument base a p settings = none ↔ a ∉ serviceArguments := by
  constructor
  · rintro h ha
    simp only [serviceArguments, List.mem_cons, List.not_mem_nil, or_false] at ha
    unfold execArgument at h
    split_ifs at h with hi hnot hu hinstalled hv he ht hp hr hc hh
    grind
  · intro ha
    simp only [serviceArguments, List.mem_cons, List.not_mem_nil, or_false, not_or] at ha
    simp [execArgument, ha]

variable (base) in
/-- **What a process does.** -/
theorem exec_cases (p : Process) (settings : Option Group) :
    (∃ a ∈ serviceArguments, p.args[1]? = some a ∧
      (exec base p settings).settings = p.change base a settings ∧
        ∀ e ∈ (exec base p settings).effects, e.Harmless) ∨
    (¬Recognized p.args ∧ p.QTSERVICE_RUN = true ∧
      exec base p settings = ⟨p.run, settings, [.run true p.args]⟩) ∨
    (¬Recognized p.args ∧ p.QTSERVICE_RUN = false ∧
      (exec base p settings).settings = p.register base settings ∧
        ((exec base p settings).effects = [] ∨
          (exec base p settings).effects = start p ++ [.connectTo])) := by
  by_cases hrecognized : Recognized p.args
  · obtain ⟨a, ha, harg⟩ := hrecognized
    cases hexec : execArgument base a p settings with
    | none => exact absurd ha (execArgument_eq_none_iff.mp hexec)
    | some o =>
      have heq : exec base p settings = o := by
        rw [exec, harg, Option.bind_some, hexec, Option.getD_some]
      rw [heq]
      exact .inl ⟨a, ha, harg, execArgument_eq_some hexec⟩
  · have heq : exec base p settings = execStart base p settings := by
      rw [exec]
      cases harg : p.args[1]? with
      | none => rfl
      | some a =>
        rw [Option.bind_some, execArgument_eq_none_iff.mpr fun ha ↦ hrecognized ⟨a, ha, harg⟩]
        rfl
    rw [heq, execStart]
    refine .inr ?_
    split
    · next hrun => exact .inl ⟨hrecognized, hrun, rfl⟩
    · next hrun =>
      refine .inr ⟨hrecognized, Bool.eq_false_iff.mpr hrun, ?_⟩
      cases settings with
      | some g => exact ⟨(register_some p g).symm, .inr rfl⟩
      | none =>
        rw [if_neg (by decide), install_none]
        dsimp only
        split
        · exact ⟨rfl, .inr rfl⟩
        · exact ⟨rfl, .inl rfl⟩

/-! ## Programs that run -/

/-- What changes the settings. -/
inductive Done where
  | exec (p : Process)
  /-- By a controller. -/
  | uninstall (writable : Bool)

def Done.change (base : ServiceBase) (settings : Option Group) : Done → Option Group
  | .exec p => (Service.exec base p settings).settings
  | .uninstall writable => (QtServiceController.uninstall writable settings).2

structure Programs where
  settings : Option Group
  detached : List Detached
  history : List Done
  effects : List Effect

namespace Programs

/-- Before the first event. -/
def init : Programs := ⟨none, [], [], []⟩

inductive Event where
  /-- Somebody starts the program. -/
  | invoke (p : Process)
  /-- The detached process of the given number calls `main`. Its arguments and the variable are
  those it was detached with, and the rest is as in the given process. -/
  | main (k : ℕ) (p : Process)
  /-- `QtServiceController::start`, when `isRunning` returns the given value. The environment of the
  controller is not modelled: it is taken to be without `QTSERVICE_RUN`, and so is what it
  detaches. -/
  | start (arguments : List QString) (isRunning : Bool)
  /-- `QtServiceController::uninstall`. -/
  | uninstall (writable : Bool)

section

variable (base) (w : Programs)

/-- A process calls `exec`. -/
def exec (p : Process) : Programs :=
  let o := Service.exec base p w.settings
  ⟨o.settings, w.detached ++ o.effects.filterMap Effect.child, w.history ++ [.exec p],
    w.effects ++ o.effects⟩

def step : Event → Programs
  | .invoke p => w.exec base p
  | .main k p =>
    match w.detached[k]? with
    | some d => { w with detached := w.detached.eraseIdx k }.exec base
        { p with args := d.program :: d.arguments, QTSERVICE_RUN := d.QTSERVICE_RUN }
    | none => w
  | .start arguments isRunning =>
    if isInstalled w.settings && !isRunning then
      { w with detached := w.detached ++ [⟨serviceFilePath w.settings, arguments, false⟩] }
    else w
  | .uninstall writable =>
    { w with
      settings := (QtServiceController.uninstall writable w.settings).2
      history := w.history ++ [.uninstall writable] }

/-- A run. -/
def run (events : List Event) : Programs := events.foldl (step base) init

end

/-! ### What one process adds -/

variable {w : Programs}

variable (base) in
theorem effects_exec (p : Process) (settings : Option Group) :
    let effects := (Service.exec base p settings).effects
    (∀ e ∈ effects, e.Harmless) ∨ ¬Recognized p.args ∧
      (effects = [.run true p.args] ∨ effects = start p ++ [.connectTo]) := by
  rcases exec_cases base p settings with ⟨_, _, _, _, hharmless⟩ |
    ⟨hnot, _, heq⟩ | ⟨hnot, _, _, heffects | heffects⟩
  · exact .inl hharmless
  · exact .inr ⟨hnot, .inl (congrArg Outcome.effects heq)⟩
  · exact .inl (heffects ▸ List.forall_mem_nil _)
  · exact .inr ⟨hnot, .inr heffects⟩

variable (base) in
/-- At most one service or one detached process, and none if an argument is recognized. -/
theorem launched_le (p : Process) (settings : Option Group) :
    let effects := (Service.exec base p settings).effects
    effects.countP Effect.isService + (effects.filterMap Effect.child).length ≤
      if Recognized p.args then 0 else 1 := by
  rcases effects_exec base p settings with hharmless | ⟨hnot, heffects | heffects⟩
  · have hservice : (Service.exec base p settings).effects.countP Effect.isService = 0 :=
      List.countP_eq_zero.mpr fun e he ↦ Bool.eq_false_iff.mp (hharmless e he).1
    have hchild : (Service.exec base p settings).effects.filterMap Effect.child = [] :=
      List.filterMap_eq_nil_iff.mpr fun e he ↦ (hharmless e he).2
    dsimp only
    rw [hservice, hchild]
    exact Nat.zero_le _
  · dsimp only
    rw [heffects, if_neg hnot]
    exact le_rfl
  · dsimp only
    rw [heffects, if_neg hnot, start]
    split
    · exact Nat.zero_le _
    · exact le_rfl

theorem mem_effects_exec {p : Process} {argList : List QString}
    (h : .run true argList ∈ (w.exec base p).effects) :
    .run true argList ∈ w.effects ∨ argList = p.args ∧ ¬Recognized p.args := by
  refine (List.mem_append.mp h).imp_right fun hmem ↦ ?_
  rcases effects_exec base p w.settings with hharmless | ⟨hnot, heffects | heffects⟩
  · cases (hharmless _ hmem).1
  · rw [heffects, List.mem_singleton, Effect.run.injEq] at hmem
    exact ⟨hmem.2, hnot⟩
  · rw [heffects, start] at hmem
    split at hmem <;> simp at hmem

theorem mem_detached_exec {p : Process} {d : Detached} (h : d ∈ (w.exec base p).detached) :
    d ∈ w.detached ∨ d = ⟨p.filePath, p.args.tail, true⟩ ∧ ¬Recognized p.args := by
  refine (List.mem_append.mp h).imp_right fun hmem ↦ ?_
  obtain ⟨e, he, hchild⟩ := List.mem_filterMap.mp hmem
  rcases effects_exec base p w.settings with hharmless | ⟨hnot, heffects | heffects⟩
  · cases (hharmless e he).2.symm.trans hchild
  · rw [heffects, List.mem_singleton] at he
    subst he
    cases hchild
  · refine ⟨?_, hnot⟩
    rw [heffects, start] at he
    split at he
    · simp only [List.cons_append, List.nil_append, List.mem_cons, List.not_mem_nil,
        or_false] at he
      rcases he with rfl | rfl <;> cases hchild
    · simp only [List.cons_append, List.nil_append, List.mem_cons, List.not_mem_nil,
        or_false] at he
      rcases he with rfl | rfl | rfl
      · cases hchild
      · exact (Option.some.inj hchild).symm
      · cases hchild

/-! ### What holds in every run -/

namespace Event

/-- The event may end in a service. -/
def launches : Event → Bool
  | .invoke p => !decide (Recognized p.args)
  | .start _ _ => true
  | _ => false

/-- The arguments that are given. -/
def arguments : Event → List QString
  | .invoke p => p.args.tail
  | .start arguments _ => arguments
  | _ => []

end Event

/-- Arguments with which somebody has asked for a service. -/
def Given (events : List Event) (arguments : List QString) : Prop :=
  ∃ e ∈ events, e.launches = true ∧ e.arguments = arguments

theorem Given.append {events : List Event} {arguments : List QString} (h : Given events arguments)
    (e : Event) : Given (events ++ [e]) arguments := by
  obtain ⟨e', he', h⟩ := h
  exact ⟨e', List.mem_append_left _ he', h⟩

theorem given_last {events : List Event} {e : Event} (h : e.launches = true) :
    Given (events ++ [e]) e.arguments := ⟨e, List.mem_append_right _ List.mem_cons_self, h, rfl⟩

variable (base) in
structure Inv (events : List Event) (w : Programs) : Prop where
  settings : w.settings = w.history.foldl (Done.change base) none
  count : w.effects.countP Effect.isService + w.detached.length ≤ events.countP Event.launches
  service : ∀ argList, .run true argList ∈ w.effects →
    ¬Recognized argList ∧ Given events argList.tail
  detached : ∀ d ∈ w.detached, Given events d.arguments ∧
    (d.QTSERVICE_RUN = true → ¬Recognized (d.program :: d.arguments))

theorem inv_init : Inv base [] init where
  settings := rfl
  count := le_rfl
  service _ h := absurd h List.not_mem_nil
  detached _ h := absurd h List.not_mem_nil

/-- A process calls `exec`, with arguments somebody has given. -/
theorem Inv.exec {events : List Event} {e : Event} (h : Inv base events w) {p : Process}
    {detached : List Detached} (hsub : detached ⊆ w.detached)
    (hcount : detached.length + (if Recognized p.args then 0 else 1) ≤
      w.detached.length + [e].countP Event.launches)
    (hgiven : ¬Recognized p.args → Given (events ++ [e]) p.args.tail) :
    Inv base (events ++ [e]) ({ w with detached := detached }.exec base p) where
  settings := by
    simp only [Programs.exec, List.foldl_append, ← h.settings]
    rfl
  count := by
    have hlaunched := launched_le base p w.settings
    have hold := h.count
    simp only [Programs.exec, List.countP_append, List.length_append] at hlaunched ⊢
    omega
  service argList hmem := by
    rcases mem_effects_exec hmem with hmem | ⟨rfl, hnot⟩
    · exact (h.service argList hmem).imp_right (·.append e)
    · exact ⟨hnot, hgiven hnot⟩
  detached d hmem := by
    rcases mem_detached_exec hmem with hmem | ⟨rfl, hnot⟩
    · exact (h.detached d (hsub hmem)).imp_left (·.append e)
    · exact ⟨hgiven hnot, fun _ ↦ (recognized_cons_tail _ _).not.mpr hnot⟩

/-- An event that adds nothing. -/
theorem Inv.append {events : List Event} (h : Inv base events w) (e : Event) :
    Inv base (events ++ [e]) w where
  settings := h.settings
  count := h.count.trans (by rw [List.countP_append]; exact Nat.le_add_right _ _)
  service argList hmem := (h.service argList hmem).imp_right (·.append e)
  detached d hmem := (h.detached d hmem).imp_left (·.append e)

theorem Inv.step {events : List Event} (h : Inv base events w) (e : Event) :
    Inv base (events ++ [e]) (w.step base e) := by
  cases e with
  | invoke p =>
    refine h.exec (List.Subset.refl _) ?_ fun hnot ↦ given_last ?_
    · by_cases hrecognized : Recognized p.args
      · rw [if_pos hrecognized]
        exact Nat.le_add_right _ _
      · rw [if_neg hrecognized, List.countP_singleton, Event.launches,
          decide_eq_false hrecognized]
        exact le_rfl
    · rw [Event.launches, decide_eq_false hnot]
      rfl
  | main k p =>
    rw [Programs.step]
    split
    · next d hd =>
      obtain ⟨hk, hget⟩ := List.getElem?_eq_some_iff.mp hd
      have hmem : d ∈ w.detached := List.mem_of_getElem? hd
      refine h.exec List.eraseIdx_subset ?_ fun _ ↦ (h.detached d hmem).1.append _
      rw [List.length_eraseIdx_of_lt hk]
      split <;> omega
    · exact h.append _
  | start arguments isRunning =>
    rw [Programs.step]
    split
    · refine ⟨h.settings, ?_, (h.append _).service, fun d hd ↦ ?_⟩
      · have hold := h.count
        rw [List.countP_append, List.length_append]
        exact Nat.add_le_add_right hold 1
      · rcases List.mem_append.mp hd with hd | hd
        · exact (h.append _).detached d hd
        · rw [List.mem_singleton.mp hd]
          exact ⟨given_last (e := .start arguments isRunning) rfl, nofun⟩
    · exact h.append _
  | uninstall writable =>
    have hsettings : (uninstall writable w.settings).2 =
        (w.history ++ [Done.uninstall writable]).foldl (Done.change base) none := by
      rw [List.foldl_append, ← h.settings]
      rfl
    exact ⟨hsettings, (h.append _).count, (h.append _).service, (h.append _).detached⟩

variable (base) in
theorem inv_run (events : List Event) : Inv base events (run base events) :=
  foldl_invariant inv_init (fun _ _ e h ↦ h.step e) events

/-- **Who runs the service.** In every run there are no more services, begun or detached, than
somebody has asked for. Each has arguments that were given then, and a process that another one has
detached to be the service does nothing else. -/
theorem services_run (events : List Event) :
    let w := run base events
    w.effects.countP Effect.isService + w.detached.length ≤ events.countP Event.launches ∧
    (∀ argList, .run true argList ∈ w.effects →
      ¬Recognized argList ∧ Given events argList.tail) ∧
    ∀ k d, w.detached[k]? = some d → d.QTSERVICE_RUN = true →
      ∀ p, let w' := run base (events ++ [.main k p])
        w'.effects = w.effects ++ [.run true (d.program :: d.arguments)] ∧
          w'.detached = w.detached.eraseIdx k ∧ w'.settings = w.settings := by
  have hinv := inv_run base events
  refine ⟨hinv.count, hinv.service, fun k d hd hrun p ↦ ?_⟩
  have hnot := (hinv.detached d (List.mem_of_getElem? hd)).2 hrun
  have hstep : run base (events ++ [.main k p]) = (run base events).step base (.main k p) :=
    List.foldl_append
  rw [hstep, step, hd]
  dsimp only [exec]
  rcases exec_cases base
      { p with args := d.program :: d.arguments, QTSERVICE_RUN := d.QTSERVICE_RUN }
      (run base events).settings with ⟨a, ha, harg, -⟩ | ⟨-, -, heq⟩ | ⟨-, hnotrun, -⟩
  · exact absurd ⟨a, ha, harg⟩ hnot
  · rw [heq]
    exact ⟨rfl, List.append_nil _, rfl⟩
  · cases hrun.symm.trans hnotrun

/-- The first start of a service: it is installed, asked for, and detached. -/
example :
    let p : Process := ⟨["./otlistener"], false, "/opt/otlistener", true, fun _ ↦ false, 0⟩
    (run OtService [.invoke p, .main 0 p]).effects = [.sendCmd .alive,
      .startDetached "/opt/otlistener" [], .connectTo, .run true ["/opt/otlistener"]] := by
  decide

/-! ### What is installed -/

end Programs

namespace Done

/-- The service is installed if it is not. -/
def Installs : Done → Prop
  | .exec p => p.writable = true ∧ (p.args[1]? = some "-i" ∨ p.args[1]? = some "-install" ∨
      ¬Recognized p.args ∧ p.QTSERVICE_RUN = false)
  | .uninstall _ => False

/-- The service is uninstalled if it is installed. -/
def Uninstalls : Done → Prop
  | .exec p => p.writable = true ∧ (p.args[1]? = some "-u" ∨ p.args[1]? = some "-uninstall")
  | .uninstall writable => writable = true

theorem recognized_of_uninstalls {p : Process} (h : (Done.exec p).Uninstalls) :
    Recognized p.args := by
  rcases h.2 with hu | hu
  · exact ⟨_, by decide, hu⟩
  · exact ⟨_, by decide, hu⟩

theorem Installs.not_uninstalls {d : Done} (h : d.Installs) : ¬d.Uninstalls := by
  cases d with
  | uninstall writable => exact h.elim
  | exec p =>
    intro hu
    have hargs := hu.2
    rcases h.2 with hi | hi | hi
    · rw [hi] at hargs
      exact absurd hargs (by decide)
    · rw [hi] at hargs
      exact absurd hargs (by decide)
    · exact hi.1 (recognized_of_uninstalls hu)

/-- A process that is to be the service installs nothing. -/
theorem Installs.run_eq_false {p : Process} (h : (Done.exec p).Installs)
    (hnot : ¬Recognized p.args) : p.QTSERVICE_RUN = false := by
  rcases h.2 with hi | hi | hi
  · exact absurd ⟨_, by decide, hi⟩ hnot
  · exact absurd ⟨_, by decide, hi⟩ hnot
  · exact hi.2

/-- Without the right to write nothing changes. -/
theorem exec_not_writable {p : Process} (h : p.writable = false) :
    ¬(Done.exec p).Uninstalls ∧ ¬(Done.exec p).Installs :=
  ⟨fun hu ↦ absurd h (ne_of_eq_of_ne hu.1 nofun), fun hi ↦ absurd h (ne_of_eq_of_ne hi.1 nofun)⟩

variable (base) in
/-- What becomes of the settings. -/
theorem change_cases (d : Done) (settings : Option Group) :
    (d.Uninstalls ∧ d.change base settings = none) ∨
    (∃ p, d = .exec p ∧ d.Installs ∧
      d.change base settings = some (settings.getD (p.entry base))) ∨
    (¬d.Uninstalls ∧ ¬d.Installs ∧ d.change base settings = settings) := by
  cases d with
  | uninstall writable =>
    cases writable with
    | true => exact .inl ⟨rfl, rfl⟩
    | false => exact .inr (.inr ⟨nofun, id, rfl⟩)
  | exec p =>
    have hregister (hi : p.writable = true → (Done.exec p).Installs)
        (heq : (Service.exec base p settings).settings = p.register base settings) :
        (∃ q, Done.exec p = .exec q ∧ (Done.exec p).Installs ∧
          (Done.exec p).change base settings = some (settings.getD (q.entry base))) ∨
        (¬(Done.exec p).Uninstalls ∧ ¬(Done.exec p).Installs ∧
          (Done.exec p).change base settings = settings) := by
      rw [change, heq, Process.register]
      split
      · next hwritable => exact .inl ⟨p, rfl, hi hwritable, rfl⟩
      · next hwritable =>
        have hnot := exec_not_writable (Bool.eq_false_iff.mpr hwritable)
        exact .inr ⟨hnot.1, hnot.2, rfl⟩
    rcases exec_cases base p settings with ⟨a, ha, harg, heq, -⟩ | ⟨hnot, hrun, heq⟩ |
      ⟨hnot, hrun, heq, -⟩
    · rw [Process.change] at heq
      split_ifs at heq with hi hu
      -- `-i` and `-install`, then `-u` and `-uninstall`, then the other arguments
      · refine .inr (hregister (fun hwritable ↦ ⟨hwritable, ?_⟩) heq)
        rcases hi with rfl | rfl
        · exact .inl harg
        · exact .inr (.inl harg)
      · rw [change, heq, QtServiceController.uninstall]
        split
        · next hwritable =>
          refine .inl ⟨⟨hwritable, ?_⟩, rfl⟩
          rcases hu with rfl | rfl
          · exact .inl harg
          · exact .inr harg
        · next hwritable =>
          have hnot := exec_not_writable (Bool.eq_false_iff.mpr hwritable)
          exact .inr (.inr ⟨hnot.1, hnot.2, rfl⟩)
      · refine .inr (.inr ⟨fun h ↦ hu ?_, fun h ↦ ?_, heq⟩)
        · exact h.2.imp (fun h ↦ Option.some.inj (harg.symm.trans h))
            fun h ↦ Option.some.inj (harg.symm.trans h)
        · rcases h.2 with h | h | h
          · exact hi (.inl (Option.some.inj (harg.symm.trans h)))
          · exact hi (.inr (Option.some.inj (harg.symm.trans h)))
          · exact h.1 ⟨a, ha, harg⟩
    · refine .inr (.inr ⟨fun h ↦ hnot (recognized_of_uninstalls h), fun h ↦ ?_,
        congrArg Outcome.settings heq⟩)
      cases hrun.symm.trans (h.run_eq_false hnot)
    · exact .inr (hregister (fun hwritable ↦ ⟨hwritable, .inr (.inr ⟨hnot, hrun⟩)⟩) heq)

end Done

namespace Programs

/-- The service has been installed, and not been uninstalled since. -/
def Installed (history : List Done) : Prop :=
  Since (fun d ↦ ¬d.Uninstalls) (fun _ d ↦ d.Installs) history

/-- A process has installed the service when it was not installed, and it has not been uninstalled
since. -/
def InstalledBy (p : Process) (history : List Done) : Prop :=
  Since (fun d ↦ ¬d.Uninstalls) (fun before d ↦ d = .exec p ∧ d.Installs ∧ ¬Installed before)
    history

variable (base) in
/-- What the settings say about a history. -/
structure Tells (history : List Done) (settings : Option Group) : Prop where
  installed : settings ≠ none ↔ Installed history
  entry : ∀ p, InstalledBy p history → settings = some (p.entry base)
  exists_by : settings ≠ none → ∃ p, InstalledBy p history

theorem Tells.change {history : List Done} {settings : Option Group}
    (h : Tells base history settings) (d : Done) :
    Tells base (history ++ [d]) (d.change base settings) := by
  rcases d.change_cases base settings with ⟨hu, heq⟩ | ⟨p, rfl, hi, heq⟩ | ⟨hu, hi, heq⟩
  · have hnot : ¬d.Installs := fun hi ↦ hi.not_uninstalls hu
    rw [heq]
    refine ⟨⟨fun h ↦ absurd rfl h, fun hinstalled ↦ ?_⟩, fun p hp ↦ ?_, fun h ↦ absurd rfl h⟩
    · rcases since_concat.mp hinstalled with hi | hold
      · exact absurd hi hnot
      · exact absurd hu hold.1
    · rcases since_concat.mp hp with hi | hold
      · exact absurd hi.2.1 hnot
      · exact absurd hu hold.1
  · have hlast : Installed (history ++ [.exec p]) := since_concat.mpr (.inl hi)
    cases settings with
    | none =>
      have hnot : ¬Installed history := fun hold ↦ h.installed.mpr hold rfl
      rw [heq]
      refine ⟨⟨fun _ ↦ hlast, fun _ ↦ nofun⟩, fun q hq ↦ ?_,
        fun _ ↦ ⟨p, since_concat.mpr (.inl ⟨rfl, hi, hnot⟩)⟩⟩
      rcases since_concat.mp hq with hq | hq
      · rw [Done.exec.inj hq.1]
        rfl
      · cases h.entry q hq.2
    | some g =>
      -- installing once more keeps the entry of the process that was first
      have hold : Installed history := h.installed.mp nofun
      obtain ⟨q, hq⟩ := h.exists_by nofun
      rw [heq]
      refine ⟨⟨fun _ ↦ hlast, fun _ ↦ nofun⟩, fun r hr ↦ ?_,
        fun _ ↦ ⟨q, since_concat.mpr (.inr ⟨hi.not_uninstalls, hq⟩)⟩⟩
      rcases since_concat.mp hr with hr | hr
      · exact absurd hold hr.2.2
      · exact h.entry r hr.2
  · rw [heq]
    refine ⟨h.installed.trans ?_, fun p hp ↦ ?_, fun hne ↦ ?_⟩
    · rw [Installed, Installed, since_concat]
      exact ⟨fun hold ↦ .inr ⟨hu, hold⟩, fun hold ↦ (hold.resolve_left hi).2⟩
    · rcases since_concat.mp hp with hp | hp
      · exact absurd hp.2.1 hi
      · exact h.entry p hp.2
    · obtain ⟨p, hp⟩ := h.exists_by hne
      exact ⟨p, since_concat.mpr (.inr ⟨hu, hp⟩)⟩

variable (base) in
theorem tells_run (events : List Event) :
    Tells base (run base events).history (run base events).settings := by
  have hnil : Tells base [] none :=
    ⟨⟨fun h ↦ absurd rfl h, fun h ↦ absurd h not_since_nil⟩, fun _ h ↦ absurd h not_since_nil,
      fun h ↦ absurd rfl h⟩
  rw [(inv_run base events).settings]
  exact foldl_invariant hnil (fun _ _ d h ↦ h.change d) _

/-- **What is installed.** In every run the service is installed just if it has been installed and
not been uninstalled since. A controller then finds the file of the process that installed it first,
whatever later ones have asked for, and the description. It finds one startup type, whatever has
been set. -/
theorem registered_run (events : List Event) :
    let w := run base events
    (isInstalled w.settings = true ↔ Installed w.history) ∧
    (Installed w.history → ∃ p, InstalledBy p w.history) ∧
    (∀ p, InstalledBy p w.history → serviceFilePath w.settings = p.filePath ∧
      serviceDescription w.settings = base.serviceDescription) ∧
    startupType w.settings = StartupType.AutoStartup.toInt := by
  have h := tells_run base events
  have hsome : isInstalled (run base events).settings = true ↔
      (run base events).settings ≠ none := by
    rw [isInstalled, Option.isSome_iff_ne_none]
  refine ⟨hsome.trans h.installed, fun hi ↦ h.exists_by (h.installed.mpr hi), fun p hp ↦ ?_, ?_⟩
  · rw [h.entry p hp]
    exact ⟨rfl, rfl⟩
  · by_cases hnone : (run base events).settings = none
    · rw [hnone]
      decide
    · obtain ⟨p, hp⟩ := h.exists_by hnone
      rw [h.entry p hp, startupType, value]
      have hkey : p.entry base "startupType" = none := rfl
      rw [Option.bind_some, hkey]
      decide

end Programs

end Service

end OtTcpListener

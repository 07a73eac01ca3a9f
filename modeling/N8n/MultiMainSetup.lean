import N8n.Library.Dict

/-!
# Leadership among main instances

Main instances share a leader key in Redis, which one of them sets and renews. A command is executed
at one time and its answer is taken at another, so that the key, and the calls of the same instance,
may change in between.
-/

namespace N8n

namespace MultiMainSetup

inductive InstanceRole
  | unset | leader | follower
  deriving DecidableEq, Repr

inductive MultiMainEvent
  | leaderStepdown | leaderTakeover
  deriving DecidableEq, Repr

/-- How far a call is: a command is on its way, or its answer is. -/
inductive Stage
  | get
  | got (leaderId : Option String)
  /-- `setIfNotExists`, in `tryBecomeLeader` -/
  | set
  | setDone (keySetSuccessfully : Bool)
  | setExpiration
  | expirationSet
  /-- in `shutdown` -/
  | clear
  | cleared
  | done
  deriving DecidableEq, Repr

structure Call where
  stage : Stage
  /-- The call is one of `init`. -/
  isInit : Bool := false
  deriving DecidableEq, Repr

/-- A running main instance. -/
structure Main where
  instanceRole : InstanceRole := .unset
  /-- `leaderCheckInterval` is set. -/
  checking : Bool := false
  calls : List Call := []
  emitted : List MultiMainEvent := []
  deriving DecidableEq

namespace Main

variable (m : Main)

def markAsLeader : Main :=
  { m with instanceRole := .leader, emitted := m.emitted ++ [.leaderTakeover] }

def markAsFollower : Main := { m with instanceRole := .follower }

def stepDown : Main := { m.markAsFollower with emitted := m.emitted ++ [.leaderStepdown] }

def setStage (call : ℕ) (stage : Stage) : Main :=
  { m with calls := m.calls.modify call fun c => { c with stage } }

/-- `checkLeader`, once it knows the leader. -/
def gotLeader (hostId : String) (call : ℕ) : Option String → Main
  | some leaderId =>
    if leaderId = hostId then m.setStage call .setExpiration
    else if m.instanceRole = .leader then m.stepDown.setStage call .done
    else m.setStage call .done
  | none => m.stepDown.setStage call .set

/-- The end of `tryBecomeLeader`; `init` goes on to set the interval. -/
def triedToBecomeLeader (call : ℕ) (isInit keySetSuccessfully : Bool) : Main :=
  let m := if keySetSuccessfully then m.markAsLeader else m.markAsFollower
  { m with checking := m.checking || isInit }.setStage call .done

end Main

end MultiMainSetup

/-- The main instances by their host ids, and the key they share. -/
structure MultiMainSetup where
  leaderKey : Option String := none
  mains : Dict String MultiMainSetup.Main := .empty

namespace MultiMainSetup

variable (s : MultiMainSetup)

def setMain (hostId : String) (m : Main) : MultiMainSetup :=
  { s with mains := s.mains.set hostId m }

/-! ## Instances -/

/-- A process with this host id starts and calls `init`, after a stop or for the first time. -/
def start (hostId : String) : MultiMainSetup :=
  s.setMain hostId { calls := [{ stage := .set, isInit := true }] }

def crash (hostId : String) : MultiMainSetup := { s with mains := s.mains.erase hostId }

/-- The interval calls `checkLeader`, whether or not the call before has returned. -/
def tick (hostId : String) : MultiMainSetup :=
  match s.mains.get? hostId with
  | none => s
  | some m =>
    if m.checking then s.setMain hostId { m with calls := m.calls ++ [{ stage := .get }] } else s

def shutdown (hostId : String) : MultiMainSetup :=
  match s.mains.get? hostId with
  | none => s
  | some m =>
    let m := { m with checking := false }
    if m.instanceRole = .leader then
      s.setMain hostId { m with calls := m.calls ++ [{ stage := .clear }] }
    else s.setMain hostId m

/-! ## Commands and answers -/

/-- The command of a call is executed. -/
def execute (hostId : String) (call : ℕ) : MultiMainSetup :=
  match s.mains.get? hostId with
  | none => s
  | some m =>
    match m.calls[call]? with
    | some ⟨.get, _⟩ => s.setMain hostId (m.setStage call (.got s.leaderKey))
    | some ⟨.set, _⟩ =>
      { s.setMain hostId (m.setStage call (.setDone s.leaderKey.isNone)) with
        leaderKey := some (s.leaderKey.getD hostId) }
    | some ⟨.setExpiration, _⟩ => s.setMain hostId (m.setStage call .expirationSet)
    | some ⟨.clear, _⟩ => { s.setMain hostId (m.setStage call .cleared) with leaderKey := none }
    | _ => s

/-- The call goes on with the answer to its command. -/
def answer (hostId : String) (call : ℕ) : MultiMainSetup :=
  match s.mains.get? hostId with
  | none => s
  | some m =>
    match m.calls[call]? with
    | some ⟨.got leaderId, _⟩ => s.setMain hostId (m.gotLeader hostId call leaderId)
    | some ⟨.setDone keySetSuccessfully, isInit⟩ =>
      s.setMain hostId (m.triedToBecomeLeader call isInit keySetSuccessfully)
    | some ⟨.expirationSet, _⟩ => s.setMain hostId (m.setStage call .done)
    | some ⟨.cleared, _⟩ => s.setMain hostId (m.setStage call .done)
    | _ => s

/-- The time of the key is up. -/
def expire : MultiMainSetup := { s with leaderKey := none }

inductive Event
  | start (hostId : String)
  | crash (hostId : String)
  | tick (hostId : String)
  | shutdown (hostId : String)
  | execute (hostId : String) (call : ℕ)
  | answer (hostId : String) (call : ℕ)
  | expire

def step : Event → MultiMainSetup
  | .start hostId => s.start hostId
  | .crash hostId => s.crash hostId
  | .tick hostId => s.tick hostId
  | .shutdown hostId => s.shutdown hostId
  | .execute hostId call => s.execute hostId call
  | .answer hostId call => s.answer hostId call
  | .expire => s.expire

/-! ## Who leads -/

/-- A call of `init` or `checkLeader` has not returned. -/
def Call.InFlight (c : Call) : Prop := c.stage ≠ .clear ∧ c.stage ≠ .cleared ∧ c.stage ≠ .done

/-- The call is at `setIfNotExists`. -/
def Call.Trying (c : Call) : Prop := c.stage = .set ∨ ∃ ok, c.stage = .setDone ok

/-- The holder of the key is leader, once its calls have returned. -/
def HolderLeads : Prop :=
  ∀ hostId m, s.leaderKey = some hostId → s.mains.get? hostId = some m →
    (∀ c ∈ m.calls, ¬ c.InFlight) → m.instanceRole = .leader

/-- With this answer the instance becomes a follower and does not try to become leader: another
instance is leader, or a key has been set before. -/
def Main.BecomesFollower (m : Main) (hostId : String) (stage : Stage) : Prop :=
  stage = .setDone false ∨
    ∃ leaderId, stage = .got (some leaderId) ∧ leaderId ≠ hostId ∧ m.instanceRole = .leader

/-- An instance that holds the key takes such an answer only while another of its calls is trying to
become leader. -/
def KeepsLeader : Event → Prop
  | .answer hostId call => ∀ m c, s.leaderKey = some hostId → s.mains.get? hostId = some m →
      m.calls[call]? = some c → m.BecomesFollower hostId c.stage →
        ∃ i c', i ≠ call ∧ m.calls[i]? = some c' ∧ c'.Trying
  | _ => True

end MultiMainSetup

end N8n

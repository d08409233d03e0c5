import Mathlib
import TradingAgents.ProofKit.Dict
import TradingAgents.ProofKit.Runs

/-! The replay store of activations.  Each call of `answer` is a thread; a step of a thread is one
block under the lock, or one of its moves outside it: the mint returns or raises, a wait ends, the
event of the entry is set. -/

namespace TradingAgents.Master

open ProofKit

/-- An entry object of the store. -/
structure Entry (α : Type) where
  agentType : String
  done : Bool := false
  answer : Option α := none
  storedAt : ℚ := 0

/-- What a call raises: a boot id of another type, the error of its own mint, or the deletion of a
key that is not there. -/
inductive Raised where
  | conflict
  | mintFailed (entry : Nat)
  | keyError
deriving DecidableEq

/-- Where a call is in the code. -/
inductive Pc (α : Type) where
  | idle
  | asking (bootId agentType : String)
  | waiting (bootId agentType : String) (entry : Nat)
  | minting (bootId agentType : String) (entry : Nat)
  | minted (bootId agentType : String) (entry : Nat) (result : α)
  | failed (bootId agentType : String) (entry : Nat)
  | stored (entry : Nat) (result : α)
  | removed (entry : Nat)
  | returned (answer : α)
  | raised (error : Raised)

/-- An answer as the block under the lock gives it, with the entry that the boot id has there. -/
structure Answered (α : Type) where
  bootId : String
  agentType : String
  answer : α
  entry : Nat
  living : Option Nat
  time : ℚ
  replayed : Bool

structure Replay (α : Type) where
  clock : ℚ
  heap : Nat → Entry α
  next : Nat
  entries : Dict String Nat
  pc : Nat → Pc α
  log : List (Answered α)

namespace Replay

variable {α : Type}

def init (clock : ℚ) : Replay α where
  clock := clock
  heap := fun _ => { agentType := "" }
  next := 0
  entries := .empty
  pc := fun _ => .idle
  log := []

def goto (s : Replay α) (t : Nat) (pc : Pc α) : Replay α :=
  { s with pc := Function.update s.pc t pc }

def setEntry (s : Replay α) (e : Nat) (entry : Entry α) : Replay α :=
  { s with heap := Function.update s.heap e entry }

/-- An answer that the call of `bootId` is given from the entry `e`. -/
def give (s : Replay α) (bootId agentType : String) (e : Nat) (answer : α) (replayed : Bool) :
    Replay α :=
  { s with log := s.log ++
      [⟨bootId, agentType, answer, e, s.entries.get? bootId, s.clock, replayed⟩] }

/-- The entry is answered, and its answer has the age `lifetime`. -/
def expired (lifetime : ℚ) (s : Replay α) (e : Nat) : Bool :=
  (s.heap e).answer.isSome && decide (lifetime ≤ s.clock - (s.heap e).storedAt)

def purgeExpired (lifetime : ℚ) (s : Replay α) : Replay α :=
  let expired := s.entries.entries.filter fun p => s.expired lifetime p.2
  { s with entries := s.entries.eraseAll (expired.map Prod.fst) }

/-- A new entry object under `bootId`, which the call `t` mints for. -/
def create (s : Replay α) (t : Nat) (bootId agentType : String) : Replay α :=
  { s.setEntry s.next { agentType } with
    next := s.next + 1
    entries := s.entries.set bootId s.next }.goto t (.minting bootId agentType s.next)

/-- The block of `answer` under the lock. -/
def lookUp (lifetime : ℚ) (s : Replay α) (t : Nat) (bootId agentType : String) : Replay α :=
  let s := s.purgeExpired lifetime
  match s.entries.get? bootId with
  | none => s.create t bootId agentType
  | some e =>
    if (s.heap e).agentType ≠ agentType then s.goto t (.raised .conflict)
    else
      match (s.heap e).answer with
      | some answer => (s.give bootId agentType e answer true).goto t (.returned answer)
      | none => s.goto t (.waiting bootId agentType e)

/-- The block of `_mint` under the lock when the mint has returned. -/
def store (s : Replay α) (t : Nat) (bootId agentType : String) (e : Nat) (result : α) : Replay α :=
  ((s.setEntry e { s.heap e with answer := some result, storedAt := s.clock }).give bootId agentType
    e result false).goto t (.stored e result)

/-- The block of `_mint` under the lock when the mint has raised. -/
def remove (s : Replay α) (t : Nat) (bootId : String) (e : Nat) : Replay α :=
  match s.entries.get? bootId with
  | some _ => { s with entries := s.entries.erase bootId }.goto t (.removed e)
  | none => s.goto t (.raised .keyError)

def setDone (s : Replay α) (e : Nat) : Replay α := s.setEntry e { s.heap e with done := true }

end Replay

/-- A move: the clock goes on, a call arrives, or the call `thread` takes its next step. -/
inductive Move (α : Type) where
  | tick (seconds : ℚ)
  | call (thread : Nat) (bootId agentType : String)
  | look (thread : Nat)
  | wake (thread : Nat)
  | mintReturns (thread : Nat) (result : α)
  | mintRaises (thread : Nat)
  | finish (thread : Nat)
  | signal (thread : Nat)

inductive Blocked where
  | notEnabled

/-- One move, where the place of its thread allows it.  A wait may end at any time: its timer is not
the clock of the store. -/
def step {α : Type} (lifetime : ℚ) (s : Replay α) : Move α → Except Blocked (Replay α)
  | .tick seconds =>
    if 0 ≤ seconds then .ok { s with clock := s.clock + seconds } else .error .notEnabled
  | .call t bootId agentType =>
    match s.pc t with
    | .idle => .ok (s.goto t (.asking bootId agentType))
    | _ => .error .notEnabled
  | .look t =>
    match s.pc t with
    | .asking bootId agentType => .ok (s.lookUp lifetime t bootId agentType)
    | _ => .error .notEnabled
  | .wake t =>
    match s.pc t with
    | .waiting bootId agentType _ => .ok (s.goto t (.asking bootId agentType))
    | _ => .error .notEnabled
  | .mintReturns t result =>
    match s.pc t with
    | .minting bootId agentType e => .ok (s.goto t (.minted bootId agentType e result))
    | _ => .error .notEnabled
  | .mintRaises t =>
    match s.pc t with
    | .minting bootId agentType e => .ok (s.goto t (.failed bootId agentType e))
    | _ => .error .notEnabled
  | .finish t =>
    match s.pc t with
    | .minted bootId agentType e result => .ok (s.store t bootId agentType e result)
    | .failed bootId _ e => .ok (s.remove t bootId e)
    | _ => .error .notEnabled
  | .signal t =>
    match s.pc t with
    | .stored e result => .ok ((s.setDone e).goto t (.returned result))
    | .removed e => .ok ((s.setDone e).goto t (.raised (.mintFailed e)))
    | _ => .error .notEnabled

end TradingAgents.Master

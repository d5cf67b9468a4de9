import Bweso.Lib.Run
import Bweso.Spec.Policy

/-! The mounted policy directory under a running provider. Its `..data` link is
switched from one generation to the next at any moment; an evaluation opens the
two files one after the other, and each open follows the link as it then is. -/

namespace Bweso

/-- What the two policy files of one generation yield when opened. -/
structure Generation where
  keys : FileRead
  keyPrefixes : FileRead
  deriving DecidableEq

inductive EvaluationPhase
  | idle
  | started
  /-- the keys file is read, with these keys so far -/
  | keysRead (allowedKeys : List Str)
  /-- startup failed, and `main` returned the error -/
  | exited (error : PolicyError)
  deriving DecidableEq

structure MountState where
  /-- the generation `..data` points at -/
  generation : ℕ
  phase : EvaluationPhase
  /-- the active rules, none before startup has evaluated them -/
  active : Option PolicyRules
  deriving DecidableEq

def MountState.init : MountState := { generation := 0, phase := .idle, active := none }

inductive MountEvent
  | switch
  | begin
  | openKeys
  | openKeyPrefixes
  deriving DecidableEq

/-- The end of an evaluation: `from_args` needs it to succeed, `reload` keeps
the rules it has when it does not. -/
def MountState.conclude (s : MountState) (result : Except PolicyError PolicyRules) : MountState :=
  match s.active, result with
  | none, .error e => { s with phase := .exited e }
  | none, .ok rules => { s with phase := .idle, active := some rules }
  | some current, result => { s with phase := .idle, active := some (LastGood.refresh current result).2 }

/-- The generations of a mount, and the sources that point into it. -/
structure Mount where
  sources : PolicySources
  generations : ℕ → Generation

namespace Mount

variable (m : Mount)

def step (s : MountState) : MountEvent → Option MountState
  | .switch => some { s with generation := s.generation + 1 }
  | .begin =>
    match s.phase with
    | .idle => some { s with phase := .started }
    | _ => none
  | .openKeys =>
    match s.phase with
    | .started =>
      match extendFromFile m.sources.inlineKeys "allowed_key".toList m.sources.keysFile
          (m.generations s.generation).keys with
      | .ok allowedKeys => some { s with phase := .keysRead allowedKeys }
      | .error e => some (s.conclude (.error e))
    | _ => none
  | .openKeyPrefixes =>
    match s.phase with
    | .keysRead allowedKeys =>
      some (s.conclude (do
        let allowedKeyPrefixes ← extendFromFile m.sources.inlineKeyPrefixes "allowed_key_prefix".toList
          m.sources.keyPrefixesFile (m.generations s.generation).keyPrefixes
        m.sources.build allowedKeys allowedKeyPrefixes))
    | _ => none

abbrev Runs (tr : List (MountState × MountEvent)) (s : MountState) : Prop :=
  Run m.step MountState.init tr s

/-- The trace holds an evaluation that opened the keys file while generation `i`
was current and the prefixes file while `j` was, `n` switches later. -/
def OpenedAt (tr : List (MountState × MountEvent)) (i j n : ℕ) : Prop :=
  ∃ before begun waiting atKeys between atPrefixes after,
    tr = before ++ (begun, .begin) :: waiting ++ (atKeys, .openKeys) :: between ++
      (atPrefixes, .openKeyPrefixes) :: after ∧
    (∀ x ∈ waiting ++ between, x.2 = MountEvent.switch) ∧
    atKeys.generation = i ∧ atPrefixes.generation = j ∧ between.length = n

/-- The rules of generation `i`'s keys file and generation `j`'s prefixes file. -/
def evaluateAt (i j : ℕ) : Except PolicyError PolicyRules :=
  m.sources.evaluate (m.generations i).keys (m.generations j).keyPrefixes

end Mount

end Bweso

import RemoteCopy.SendErr
import RemoteCopy.Library.Decimal
import RemoteCopy.Library.Transition
import Mathlib.Data.List.Dedup
import Mathlib.Data.List.TakeWhile

/-!
# The settings of the library

What is dropped and damaged comes from `sendErr_init` and from the environment, which has
precedence. The runs of a process are the calls it makes: `sendErr_init`, first of all and as often
as it likes, `fork` and `sendto`.

Every datagram gets what the settings say. It is sent as it is, or not at all, or with a byte that
every receiver notices (`wire_of_reachable`); a drop list in the environment drops the datagrams
with its numbers and no other (`dropped_iff_of_reachable`); and the journal has the sequence
numbers of the rest (`journal_of_reachable`).
-/

namespace RemoteCopy

/-! ## The environment -/

/-- The variables the library looks at, as strings. The error rate is as `strtof` has read it. -/
structure Environment where
  seedRand : Option Bytes
  errRate : Option CFloat
  errDrop : Option Bytes
  errFlip : Option Bytes

/-- `m_EnvData`: what is set, and to what. -/
structure SettingsManager where
  seedRand : Option Int
  errRate : Option CFloat
  errDrop : Option (List Int)
  errFlip : Option (List Int)
  deriving DecidableEq

namespace SettingsManager

/-- The numbers before the first token that is none. -/
def values : List Bytes → List Int
  | [] => []
  | token :: tokens =>
      match Decimal.strtol token with
      | some value => value :: values tokens
      | none => []

def parser2ListLong (str : Bytes) : List Int := values (Decimal.strtok 44 [] str)

def parserLong2Uint32 (l : List Int) : List UInt32 := (l.filter (0 ≤ ·)).map toUInt32

/-- `loadEnvData`. A number that cannot be read counts as not set, a list as empty. -/
def loadEnvData (env : Environment) : SettingsManager where
  seedRand := env.seedRand.bind Decimal.strtol
  errRate := env.errRate
  errDrop := env.errDrop.map parser2ListLong
  errFlip := env.errFlip.map parser2ListLong

variable (s : SettingsManager) (m : PacketManager)

def loadEnvDataSeedRand : PacketManager :=
  match s.seedRand with
  | some seed => { m with rand := srand48 seed }
  | none => m

def loadEnvDataErrRate : PacketManager :=
  match s.errRate with
  | some rate => { m with errorRate := rate }
  | none => m

def loadEnvDataErrDrop : PacketManager :=
  match s.errDrop with
  | some l =>
      if parserLong2Uint32 l = [] then
        { m with errorCaseChance := m.errorCaseChance ++ [.errorDrop true []] }
      else
        { m with
          errorCaseConstant := m.errorCaseConstant ++ [.errorDrop false (parserLong2Uint32 l)] }
  | none => m

/-- A list of packets to be flipped is not implemented. -/
def loadEnvDataErrFlip : PacketManager :=
  match s.errFlip with
  | some l =>
      if parserLong2Uint32 l = [] then
        { m with errorCaseChance := m.errorCaseChance ++ [.errorFlipBits] }
      else m
  | none => m

def setUserModeSeedRand (seed : Int) : PacketManager :=
  if s.seedRand.isSome then m else { m with rand := srand48 seed }

def setUserModeErrRate (rate : CFloat) : PacketManager :=
  if s.errRate.isSome then m else { m with errorRate := rate }

def setUserModeErrDrop (isEnabled : Bool) : PacketManager :=
  if s.errDrop.isSome then m
  else if isEnabled then { m with errorCaseChance := m.errorCaseChance ++ [.errorDrop true []] }
  else m

def setUserModeErrFlip (isEnabled : Bool) : PacketManager :=
  if s.errFlip.isSome then m
  else if isEnabled then { m with errorCaseChance := m.errorCaseChance ++ [.errorFlipBits] }
  else m

end SettingsManager

/-! ## The library -/

/-- The globals of the library. -/
structure SendErr where
  pktMgr : PacketManager
  setsMgr : SettingsManager
  nextSeed : Int
  deriving DecidableEq

/-- What `sendErr_init` is called with, and the two times it may look at. -/
structure InitArgs where
  errorRate : CFloat
  dropFlag : Bool
  flipFlag : Bool
  randomFlag : Bool
  time : Int
  time' : Int

namespace SendErr

/-- The constructors of both managers, before `main`. -/
def load (env : Environment) (time : Int) : SendErr :=
  let s := SettingsManager.loadEnvData env
  let m : PacketManager :=
    { errorRate := .finite 0, msgNo := 0, errorCaseConstant := [], errorCaseChance := [],
      rand := srand48 time }
  ⟨s.loadEnvDataErrFlip (s.loadEnvDataErrDrop (s.loadEnvDataErrRate (s.loadEnvDataSeedRand m))),
    s, 10⟩

/-- `sendErr_init`. -/
def init (l : SendErr) (a : InitArgs) : SendErr :=
  let m := { l.pktMgr with
    errorCaseConstant := l.pktMgr.errorCaseConstant ++ [.infoSeqNo [] []] }
  let m := l.setsMgr.setUserModeErrRate m a.errorRate
  let m := l.setsMgr.setUserModeErrDrop m a.dropFlag
  let m := l.setsMgr.setUserModeErrFlip m a.flipFlag
  let m := l.setsMgr.setUserModeSeedRand m (if a.randomFlag then a.time else l.nextSeed)
  ⟨m, l.setsMgr, if a.randomFlag then a.time' else l.nextSeed + 1⟩

/-- `forkMod`, in the child or in the parent. -/
def forkMod (l : SendErr) (child : Bool) : SendErr :=
  { l with
    pktMgr := if child then l.setsMgr.setUserModeSeedRand l.pktMgr l.nextSeed else l.pktMgr
    nextSeed := l.nextSeed + 1 }

end SendErr

/-- A call of the library; of `sendtoErr` with what it has really sent. -/
inductive SendErrCall where
  | init (a : InitArgs)
  | forkMod (child : Bool)
  | sendtoErr (buf : Bytes) (wire : Option Bytes)

namespace SendErr

/-- The calls of a process, that of its `main` being the first of `sendErr_init`. All of them pass
on the error rate of the command line. -/
def calls (env : Environment) (rate : CFloat) : System SendErr SendErrCall where
  init l := ∃ time a, a.errorRate = rate ∧ l = (load env time).init a
  step l c l' :=
    match c with
    | .init a => a.errorRate = rate ∧ l' = l.init a
    | .forkMod child => l' = l.forkMod child
    | .sendtoErr buf wire => ∃ n, l.pktMgr.sendtoErr buf = .ok (some ⟨n, wire, l'.pktMgr⟩) ∧
        l'.setsMgr = l.setsMgr ∧ l'.nextSeed = l.nextSeed

/-- The datagrams of a log of calls, and what was really sent. -/
def sends : List SendErrCall → List (Bytes × Option Bytes)
  | [] => []
  | .sendtoErr buf wire :: log => (buf, wire) :: sends log
  | _ :: log => sends log

/-- How often `sendErr_init` was called again. -/
def inits : List SendErrCall → Nat
  | [] => 0
  | .init _ :: log => inits log + 1
  | _ :: log => inits log

/-- The runs, with all calls. -/
def runs (env : Environment) (rate : CFloat) : System (SendErr × List SendErrCall) SendErrCall :=
  (calls env rate).logged fun c => [c]

/-- One more datagram, computed. -/
def sendNext (x : SendErr × List SendErrCall) (buf : Bytes) :
    Option (SendErr × List SendErrCall) :=
  match x.1.pktMgr.sendtoErr buf with
  | .ok (some ⟨_, wire, m⟩) =>
      some ({ x.1 with pktMgr := m }, x.2 ++ [.sendtoErr buf wire])
  | _ => none

theorem runs_of_sendNext (env : Environment) (rate : CFloat) {x x' : SendErr × List SendErrCall}
    {buf : Bytes} (h : sendNext x buf = some x') : ∃ c, (runs env rate).step x c x' := by
  unfold sendNext at h
  split at h
  · next n wire m hsend =>
      cases h
      exact ⟨.sendtoErr buf wire, ⟨n, hsend, rfl, rfl⟩, rfl⟩
  · cases h

end SendErr

/-! ## Journal and counts -/

/-- The counts are those of the journal. -/
structure Tallies (count : List (UInt32 × UInt32)) (history : List UInt32) : Prop where
  keys : (count.map Prod.fst).Nodup
  lookup : ∀ key, count.lookup key
    = if key ∈ history then some (UInt32.ofNat (history.count key)) else none

section
variable {count : List (UInt32 × UInt32)} {history : List UInt32}

theorem mem_keys_iff {key : UInt32} : key ∈ count.map Prod.fst ↔ count.lookup key ≠ none := by
  induction count with
  | nil => simp
  | cons entry count ih =>
      obtain ⟨k, n⟩ := entry
      rw [List.map_cons, List.mem_cons, List.lookup_cons, ih]
      by_cases hkey : key = k
      · simp [hkey]
      · simp [hkey, beq_eq_false_iff_ne.mpr hkey]

theorem mem_keys_increment {key seqNo : UInt32} :
    key ∈ (increment seqNo count).map Prod.fst ↔ key = seqNo ∨ key ∈ count.map Prod.fst := by
  induction count with
  | nil => simp [increment]
  | cons entry count ih =>
      obtain ⟨k, n⟩ := entry
      rw [increment]
      split
      · next hkey =>
          subst hkey
          simp
      · rw [List.map_cons, List.map_cons, List.mem_cons, List.mem_cons, ih]
        exact or_left_comm

theorem nodup_increment (h : (count.map Prod.fst).Nodup) (seqNo : UInt32) :
    ((increment seqNo count).map Prod.fst).Nodup := by
  induction count with
  | nil => exact List.nodup_singleton _
  | cons entry count ih =>
      obtain ⟨k, n⟩ := entry
      rw [increment]
      rw [List.map_cons, List.nodup_cons] at h
      split
      · exact List.nodup_cons.mpr h
      · next hkey =>
          rw [List.map_cons, List.nodup_cons, mem_keys_increment, not_or]
          exact ⟨⟨hkey, h.1⟩, ih h.2⟩

theorem lookup_increment (seqNo key : UInt32) : (increment seqNo count).lookup key
    = if key = seqNo then some ((count.lookup key).getD 0 + 1) else count.lookup key := by
  induction count with
  | nil =>
      rw [increment, List.lookup_cons]
      by_cases hkey : key = seqNo
      · simp [hkey]
      · simp [hkey, beq_eq_false_iff_ne.mpr hkey]
  | cons entry count ih =>
      obtain ⟨k, n⟩ := entry
      rw [increment]
      split
      · next hkey =>
          subst hkey
          by_cases heq : key = k
          · simp [heq]
          · simp [List.lookup_cons, heq, beq_eq_false_iff_ne.mpr heq]
      · next hkey =>
          by_cases heq : key = k
          · subst heq
            simp [hkey]
          · simp only [List.lookup_cons, beq_eq_false_iff_ne.mpr heq, ih]

theorem Tallies.nil : Tallies [] [] := ⟨List.nodup_nil, fun _ => rfl⟩

/-- **One more in the journal is one more in the counts.** -/
theorem Tallies.increment (h : Tallies count history) (seqNo : UInt32) :
    Tallies (increment seqNo count) (history ++ [seqNo]) where
  keys := nodup_increment h.keys seqNo
  lookup key := by
    rw [lookup_increment, h.lookup, List.count_append]
    by_cases hkey : key = seqNo
    · subst hkey
      by_cases hmem : key ∈ history
      · simp [hmem]
      · simp [hmem, List.count_eq_zero_of_not_mem hmem]
    · simp [hkey, Ne.symm hkey]

/-- What is not in the map counts as zero, as in the journal. -/
theorem Tallies.getD_lookup (h : Tallies count history) (key : UInt32) :
    (count.lookup key).getD 0 = UInt32.ofNat (history.count key) := by
  rw [h.lookup]
  split
  · rfl
  · next hkey =>
      rw [List.count_eq_zero_of_not_mem hkey]
      rfl

/-- What `report` prints are the length of the journal and the number of its different entries. -/
theorem Tallies.length_eq (h : Tallies count history) : count.length = history.dedup.length := by
  have hmem (key : UInt32) : key ∈ count.map Prod.fst ↔ key ∈ history.dedup := by
    rw [mem_keys_iff, h.lookup, List.mem_dedup]
    split <;> simp [*]
  rw [← List.length_map (f := Prod.fst)]
  exact ((List.perm_ext_iff_of_nodup h.keys (List.nodup_dedup _)).mpr hmem).length_eq

end

/-! ## The invariant -/

/-- The numbers that the environment has on its drop list. -/
def Environment.dropList (env : Environment) : List UInt32 :=
  match env.errDrop with
  | some str => SettingsManager.parserLong2Uint32 (SettingsManager.parser2ListLong str)
  | none => []

/-- The event for it, if there is a list. -/
def Environment.standard (env : Environment) : List MsgEvent :=
  if env.dropList = [] then [] else [.errorDrop false env.dropList]

namespace SendErr

/-- The sequence numbers of the datagrams that are not on the drop list, from the one with number
`n + 1`. -/
def recorded (dropList : List UInt32) (n : Nat) : List (Bytes × Option Bytes) → List UInt32
  | [] => []
  | (buf, _) :: sent =>
      if UInt32.ofNat (n + 1) ∈ dropList then recorded dropList (n + 1) sent
      else ByteOrder.word32 .big buf :: recorded dropList (n + 1) sent

/-- The settings after the calls `log`: what is constant are the drop list and, for every
`sendErr_init`, a journal; the first of them is complete. -/
structure Settled (env : Environment) (rate : CFloat) (l : SendErr) (log : List SendErrCall) :
    Prop where
  settings : l.setsMgr = SettingsManager.loadEnvData env
  errorRate : l.pktMgr.errorRate = env.errRate.getD rate
  msgNo : l.pktMgr.msgNo = UInt32.ofNat (sends log).length
  constant : ∃ count journals,
    l.pktMgr.errorCaseConstant
      = env.standard ++ .infoSeqNo count (recorded env.dropList 0 (sends log)) :: journals ∧
    Tallies count (recorded env.dropList 0 (sends log)) ∧ journals.length = inits log ∧
    ∀ e ∈ journals, ∃ count history, e = .infoSeqNo count history ∧ Tallies count history ∧
      history <:+ recorded env.dropList 0 (sends log)
  chance : ∀ e ∈ l.pktMgr.errorCaseChance, e = .errorDrop true [] ∨ e = .errorFlipBits
  exclusive : env.dropList ≠ [] → .errorDrop true [] ∉ l.pktMgr.errorCaseChance
  few : l.pktMgr.errorCaseChance.length ≤ 2 * inits log + 4

section
variable {env : Environment} {rate : CFloat} {l l' : SendErr} {log : List SendErrCall}

theorem sends_append (log log' : List SendErrCall) :
    sends (log ++ log') = sends log ++ sends log' := by
  induction log with
  | nil => rfl
  | cons c log ih => cases c <;> simp [sends, ih]

theorem inits_append (log log' : List SendErrCall) :
    inits (log ++ log') = inits log + inits log' := by
  induction log with
  | nil => simp [inits]
  | cons c log ih =>
      cases c <;> simp only [List.cons_append, inits, ih]
      omega

theorem recorded_append (dropList : List UInt32) (n : Nat) (sent : List (Bytes × Option Bytes))
    (buf : Bytes) (wire : Option Bytes) :
    recorded dropList n (sent ++ [(buf, wire)]) = recorded dropList n sent
      ++ if UInt32.ofNat (n + sent.length + 1) ∈ dropList then []
        else [ByteOrder.word32 .big buf] := by
  induction sent generalizing n with
  | nil =>
      simp only [List.nil_append, recorded, List.length_nil, Nat.add_zero]
  | cons x sent ih =>
      obtain ⟨buf', wire'⟩ := x
      have hnum : n + 1 + sent.length + 1 = n + ((buf', wire') :: sent).length + 1 := by
        rw [List.length_cons]
        omega
      rw [List.cons_append, recorded, recorded, ih, hnum]
      split <;> rfl

/-- The standard events drop what is on the list. -/
theorem Settled.lists (h : Settled env rate l log) :
    l.pktMgr.lists = decide (UInt32.ofNat ((sends log).length + 1) ∈ env.dropList) := by
  obtain ⟨count, journals, hconstant, -, -, hjournals⟩ := h.constant
  have hnum : l.pktMgr.msgNo + 1 = UInt32.ofNat ((sends log).length + 1) := by
    rw [h.msgNo, UInt32.ofNat_add]
    rfl
  have hquiet : journals.any (MsgEvent.drops (l.pktMgr.msgNo + 1)) = false := by
    rw [List.any_eq_false]
    intro e he
    obtain ⟨count, history, rfl, -⟩ := hjournals e he
    exact Bool.false_ne_true
  rw [PacketManager.lists, hconstant, List.any_append, List.any_cons, hquiet, ← hnum]
  show (env.standard.any _ || (false || false)) = _
  rw [Bool.or_false, Bool.or_false, Environment.standard]
  split
  · next hnil => rw [hnil]; rfl
  · show (false || decide (_ ∈ env.dropList) || false) = _
    rw [Bool.false_or, Bool.or_false]

theorem Settled.configured (h : Settled env rate l log) (hfew : inits log < 2 ^ 22) :
    l.pktMgr.Configured where
  constant := by
    obtain ⟨count, journals, hconstant, -, -, hjournals⟩ := h.constant
    intro e he
    rw [hconstant, List.mem_append, List.mem_cons] at he
    rcases he with he | rfl | he
    · rw [Environment.standard] at he
      split at he
      · cases he
      · rw [List.mem_singleton] at he
        rw [he]
        exact fun hc => by cases hc
    · exact fun hc => by cases hc
    · obtain ⟨count, history, rfl, -⟩ := hjournals e he
      exact fun hc => by cases hc
  chance := h.chance
  few := by
    have := h.few
    omega

/-! ## The calls -/

/-- The random events that `sendErr_init` adds. -/
def added (s : SettingsManager) (a : InitArgs) : List MsgEvent :=
  (if s.errDrop.isNone ∧ a.dropFlag = true then [.errorDrop true []] else [])
    ++ if s.errFlip.isNone ∧ a.flipFlag = true then [.errorFlipBits] else []

theorem setUserModeErrDrop_eq (s : SettingsManager) (m : PacketManager) (isEnabled : Bool) :
    s.setUserModeErrDrop m isEnabled = { m with
      errorCaseChance := m.errorCaseChance
        ++ if s.errDrop.isNone ∧ isEnabled = true then [.errorDrop true []] else [] } := by
  unfold SettingsManager.setUserModeErrDrop
  cases s.errDrop <;> cases isEnabled <;> simp

theorem setUserModeErrFlip_eq (s : SettingsManager) (m : PacketManager) (isEnabled : Bool) :
    s.setUserModeErrFlip m isEnabled = { m with
      errorCaseChance := m.errorCaseChance
        ++ if s.errFlip.isNone ∧ isEnabled = true then [.errorFlipBits] else [] } := by
  unfold SettingsManager.setUserModeErrFlip
  cases s.errFlip <;> cases isEnabled <;> simp

theorem setUserModeErrRate_eq (s : SettingsManager) (m : PacketManager) (rate : CFloat) :
    s.setUserModeErrRate m rate
      = { m with errorRate := if s.errRate.isSome then m.errorRate else rate } := by
  unfold SettingsManager.setUserModeErrRate
  split <;> rfl

theorem setUserModeSeedRand_eq (s : SettingsManager) (m : PacketManager) (seed : Int) :
    s.setUserModeSeedRand m seed
      = { m with rand := if s.seedRand.isSome then m.rand else srand48 seed } := by
  unfold SettingsManager.setUserModeSeedRand
  split <;> rfl

theorem init_pktMgr (l : SendErr) (a : InitArgs) : (l.init a).pktMgr =
    { errorRate := if l.setsMgr.errRate.isSome then l.pktMgr.errorRate else a.errorRate
      msgNo := l.pktMgr.msgNo
      errorCaseConstant := l.pktMgr.errorCaseConstant ++ [.infoSeqNo [] []]
      errorCaseChance := l.pktMgr.errorCaseChance ++ added l.setsMgr a
      rand := if l.setsMgr.seedRand.isSome then l.pktMgr.rand
        else srand48 (if a.randomFlag then a.time else l.nextSeed) } := by
  simp only [init, setUserModeSeedRand_eq, setUserModeErrFlip_eq, setUserModeErrDrop_eq,
    setUserModeErrRate_eq, added, List.append_assoc]

theorem mem_added {s : SettingsManager} {a : InitArgs} {e : MsgEvent} (he : e ∈ added s a) :
    (e = .errorDrop true [] ∧ s.errDrop = none) ∨ e = .errorFlipBits := by
  rw [added, List.mem_append] at he
  rcases he with he | he <;> split at he
  · next h =>
      rw [List.mem_singleton] at he
      exact .inl ⟨he, Option.isNone_iff_eq_none.mp h.1⟩
  · cases he
  · exact .inr (List.mem_singleton.mp he)
  · cases he

theorem length_added (s : SettingsManager) (a : InitArgs) : (added s a).length ≤ 2 := by
  rw [added, List.length_append]
  split <;> split <;> decide

theorem loadEnvDataErrDrop_eq (env : Environment) (m : PacketManager) :
    (SettingsManager.loadEnvData env).loadEnvDataErrDrop m = { m with
      errorCaseConstant := m.errorCaseConstant ++ env.standard
      errorCaseChance := m.errorCaseChance
        ++ if env.errDrop.isSome ∧ env.dropList = [] then [.errorDrop true []] else [] } := by
  unfold SettingsManager.loadEnvDataErrDrop Environment.standard Environment.dropList
  cases hdrop : env.errDrop with
  | none => simp [SettingsManager.loadEnvData, hdrop]
  | some str =>
      simp only [SettingsManager.loadEnvData, hdrop, Option.map_some, Option.isSome_some, true_and]
      split <;> simp

theorem loadEnvDataErrFlip_eq (s : SettingsManager) : ∃ flips : List MsgEvent,
    (flips = [] ∨ flips = [.errorFlipBits]) ∧ ∀ m : PacketManager,
      s.loadEnvDataErrFlip m = { m with errorCaseChance := m.errorCaseChance ++ flips } := by
  unfold SettingsManager.loadEnvDataErrFlip
  cases s.errFlip with
  | none => exact ⟨[], .inl rfl, fun m => by rw [List.append_nil]⟩
  | some l =>
      by_cases hlist : SettingsManager.parserLong2Uint32 l = []
      · exact ⟨_, .inr rfl, fun m => if_pos hlist⟩
      · exact ⟨[], .inl rfl, fun m => by rw [List.append_nil]; exact if_neg hlist⟩

/-- What the environment sets before `main`. -/
theorem load_pktMgr (env : Environment) (time : Int) : ∃ seed chance, (load env time).pktMgr =
    { errorRate := env.errRate.getD (.finite 0)
      msgNo := 0
      errorCaseConstant := env.standard
      errorCaseChance := chance
      rand := srand48 seed } ∧ chance.length ≤ 2 ∧
    ∀ e ∈ chance, (e = .errorDrop true [] ∧ env.dropList = []) ∨ e = .errorFlipBits := by
  obtain ⟨seed, hseed⟩ : ∃ seed, (SettingsManager.loadEnvData env).loadEnvDataSeedRand
      ⟨.finite 0, 0, [], [], srand48 time⟩ = ⟨.finite 0, 0, [], [], srand48 seed⟩ := by
    unfold SettingsManager.loadEnvDataSeedRand
    cases (SettingsManager.loadEnvData env).seedRand with
    | none => exact ⟨time, rfl⟩
    | some seed => exact ⟨seed, rfl⟩
  have hrate (m : PacketManager) : (SettingsManager.loadEnvData env).loadEnvDataErrRate m
      = { m with errorRate := env.errRate.getD m.errorRate } := by
    unfold SettingsManager.loadEnvDataErrRate SettingsManager.loadEnvData
    cases env.errRate <;> rfl
  obtain ⟨flips, hflips, hflip⟩ := loadEnvDataErrFlip_eq (SettingsManager.loadEnvData env)
  refine ⟨seed, (if env.errDrop.isSome ∧ env.dropList = [] then [.errorDrop true []] else [])
    ++ flips, ?_, ?_, fun e he => ?_⟩
  · simp only [load, hseed, hrate, loadEnvDataErrDrop_eq, hflip, List.nil_append]
  · rw [List.length_append]
    split <;> rcases hflips with rfl | rfl <;> decide
  · rcases List.mem_append.mp he with he | he
    · split at he
      · next hlist => exact .inl ⟨List.mem_singleton.mp he, hlist.2⟩
      · cases he
    · rcases hflips with rfl | rfl
      · cases he
      · exact .inr (List.mem_singleton.mp he)

/-- As the program begins. -/
theorem Settled.initial (h : (calls env rate).init l) : Settled env rate l [] := by
  obtain ⟨time, a, rfl, rfl⟩ := h
  obtain ⟨seed, chance, hload, hlength, hchance⟩ := load_pktMgr env time
  have hinit := init_pktMgr (load env time) a
  have hsettings : (load env time).setsMgr = SettingsManager.loadEnvData env := rfl
  rw [hload] at hinit
  have hadded := length_added (load env time).setsMgr a
  refine ⟨rfl, ?_, by rw [hinit]; rfl, ⟨[], [], by rw [hinit]; rfl, .nil, rfl, fun e he => ?_⟩, ?_,
    ?_, ?_⟩
  · rw [hinit]
    show (if (SettingsManager.loadEnvData env).errRate.isSome then _ else _) = _
    rw [SettingsManager.loadEnvData]
    cases env.errRate <;> rfl
  · cases he
  · rw [hinit]
    intro e he
    rcases List.mem_append.mp he with he | he
    · exact (hchance e he).imp_left And.left
    · exact (mem_added he).imp_left And.left
  · rw [hinit]
    intro hlist hmem
    rcases List.mem_append.mp hmem with he | he
    · rcases hchance _ he with ⟨-, hnil⟩ | hc
      · exact hlist hnil
      · cases hc
    · rcases mem_added he with ⟨-, hnone⟩ | hc
      · refine hlist ?_
        rw [hsettings, SettingsManager.loadEnvData, Option.map_eq_none_iff] at hnone
        rw [Environment.dropList, hnone]
      · cases hc
  · rw [hinit]
    simp only [List.length_append, inits]
    omega

/-- An event that drops the packet keeps it from the events behind it. -/
theorem noted_cons_of_drops {msgNo seqNo : UInt32} {e : MsgEvent} (he : e.drops msgNo = true)
    (es : List MsgEvent) : noted msgNo seqNo (e :: es) = e :: es := by
  simp [noted, he]

theorem noted_of_quiet {msgNo seqNo : UInt32} {es : List MsgEvent}
    (hes : ∀ e ∈ es, e.drops msgNo = false) : noted msgNo seqNo es = es.map (.note seqNo) := by
  have hquiet : ∀ e ∈ es, (!e.drops msgNo) = true := by
    intro e he
    rw [hes e he]
    rfl
  rw [noted, List.takeWhile_eq_self_iff.mpr hquiet, List.dropWhile_eq_nil_iff.mpr hquiet,
    List.append_nil]

/-- A datagram on the list is noted by nobody. -/
theorem Settled.noted_of_listed (h : Settled env rate l log)
    (hlists : UInt32.ofNat ((sends log).length + 1) ∈ env.dropList) (seqNo : UInt32) :
    noted (l.pktMgr.msgNo + 1) seqNo l.pktMgr.errorCaseConstant = l.pktMgr.errorCaseConstant := by
  obtain ⟨count, journals, hconstant, -, -⟩ := h.constant
  have hnum : l.pktMgr.msgNo + 1 = UInt32.ofNat ((sends log).length + 1) := by
    rw [h.msgNo, UInt32.ofNat_add]
    rfl
  have hstandard : env.standard = [.errorDrop false env.dropList] := by
    rw [Environment.standard, if_neg (List.ne_nil_of_mem hlists)]
  have hdrops : MsgEvent.drops (UInt32.ofNat ((sends log).length + 1))
      (.errorDrop false env.dropList) = true := by
    rw [MsgEvent.drops, Bool.false_or]
    exact decide_eq_true hlists
  rw [hconstant, hstandard, hnum]
  exact noted_cons_of_drops hdrops _

/-- Any other is noted in all journals. -/
theorem Settled.noted_of_notListed (h : Settled env rate l log)
    (hlists : UInt32.ofNat ((sends log).length + 1) ∉ env.dropList) (seqNo : UInt32) :
    noted (l.pktMgr.msgNo + 1) seqNo l.pktMgr.errorCaseConstant
      = l.pktMgr.errorCaseConstant.map (.note seqNo) := by
  have hquiet := h.lists
  rw [decide_eq_false hlists, PacketManager.lists, List.any_eq_false] at hquiet
  exact noted_of_quiet fun e he => Bool.eq_false_iff.mpr (hquiet e he)

/-- `sendErr_init` is called again. -/
theorem Settled.init (h : Settled env rate l log) {a : InitArgs} (hrate : a.errorRate = rate) :
    Settled env rate (l.init a) (log ++ [.init a]) := by
  obtain ⟨count, journals, hconstant, htallies, hnumber, hjournals⟩ := h.constant
  have hinit := init_pktMgr l a
  have hsends : sends (log ++ [.init a]) = sends log := by
    rw [sends_append]
    exact List.append_nil _
  refine ⟨h.settings, ?_, ?_, ⟨count, journals ++ [.infoSeqNo [] []], ?_, ?_, ?_, ?_⟩, ?_, ?_,
    ?_⟩
  · rw [hinit]
    show (if l.setsMgr.errRate.isSome then l.pktMgr.errorRate else a.errorRate) = _
    rw [h.settings, h.errorRate, hrate, SettingsManager.loadEnvData]
    cases env.errRate <;> rfl
  · rw [hinit, hsends]
    exact h.msgNo
  · rw [hinit, hsends]
    show l.pktMgr.errorCaseConstant ++ _ = _
    rw [hconstant, List.append_assoc, List.cons_append]
  · rw [hsends]
    exact htallies
  · rw [List.length_append, inits_append, hnumber]
    rfl
  · rw [hsends]
    intro e he
    rcases List.mem_append.mp he with he | he
    · exact hjournals e he
    · exact ⟨[], [], List.mem_singleton.mp he, .nil, List.nil_suffix⟩
  · rw [hinit]
    intro e he
    rcases List.mem_append.mp he with he | he
    · exact h.chance e he
    · exact (mem_added he).imp_left And.left
  · rw [hinit]
    intro hlist hmem
    rcases List.mem_append.mp hmem with he | he
    · exact h.exclusive hlist he
    · rcases mem_added he with ⟨-, hnone⟩ | hc
      · rw [h.settings, SettingsManager.loadEnvData, Option.map_eq_none_iff] at hnone
        exact hlist (by rw [Environment.dropList, hnone])
      · cases hc
  · have hlength := h.few
    have hadded := length_added l.setsMgr a
    rw [hinit, inits_append]
    simp only [List.length_append, inits]
    omega

/-- The process forks. -/
theorem Settled.forkMod (h : Settled env rate l log) (child : Bool) :
    Settled env rate (l.forkMod child) (log ++ [.forkMod child]) := by
  have hsends : sends (log ++ [.forkMod child]) = sends log := by
    rw [sends_append]
    exact List.append_nil _
  obtain ⟨x, hpktMgr⟩ : ∃ x, (l.forkMod child).pktMgr = { l.pktMgr with rand := x } := by
    cases child with
    | false => exact ⟨l.pktMgr.rand, rfl⟩
    | true => exact ⟨_, setUserModeSeedRand_eq l.setsMgr l.pktMgr l.nextSeed⟩
  have hinits : inits (log ++ [.forkMod child]) = inits log := inits_append log _
  refine ⟨h.settings, ?_, ?_, ?_, ?_, ?_, ?_⟩ <;> rw [hpktMgr]
  · exact h.errorRate
  · rw [hsends]
    exact h.msgNo
  · rw [hsends, hinits]
    exact h.constant
  · exact h.chance
  · exact h.exclusive
  · rw [hinits]
    exact h.few

/-- A datagram is sent. -/
theorem Settled.sent (h : Settled env rate l log) {buf : Bytes} {x : Rand48}
    (hpktMgr : l'.pktMgr = l.pktMgr.after buf x) (hsettings : l'.setsMgr = l.setsMgr)
    (wire : Option Bytes) : Settled env rate l' (log ++ [.sendtoErr buf wire]) := by
  obtain ⟨count, journals, hconstant, htallies, hnumber, hjournals⟩ := h.constant
  have hsends : sends (log ++ [.sendtoErr buf wire]) = sends log ++ [(buf, wire)] :=
    sends_append log _
  have hinits : inits (log ++ [.sendtoErr buf wire]) = inits log := inits_append log _
  have hrecorded := recorded_append env.dropList 0 (sends log) buf wire
  rw [Nat.zero_add] at hrecorded
  refine ⟨hsettings.trans h.settings, ?_, ?_, ?_, ?_, ?_, ?_⟩ <;> rw [hpktMgr]
  · exact h.errorRate
  · rw [hsends, List.length_append, List.length_singleton, UInt32.ofNat_add, ← h.msgNo]
    rfl
  · rw [hsends, hinits]
    show ∃ count journals, noted _ _ l.pktMgr.errorCaseConstant = _ ∧ _
    by_cases hlists : UInt32.ofNat ((sends log).length + 1) ∈ env.dropList
    · rw [if_pos hlists, List.append_nil] at hrecorded
      rw [h.noted_of_listed hlists, hrecorded]
      exact h.constant
    · rw [if_neg hlists] at hrecorded
      rw [h.noted_of_notListed hlists, hrecorded, hconstant]
      refine ⟨increment (ByteOrder.word32 .big buf) count,
        journals.map (.note (ByteOrder.word32 .big buf)), ?_, htallies.increment _,
        (List.length_map _).trans hnumber, ?_⟩
      · rw [List.map_append, List.map_cons, Environment.standard]
        split <;> rfl
      · intro e he
        obtain ⟨e, hmem, rfl⟩ := List.mem_map.mp he
        obtain ⟨count, history, rfl, htallies, hsuffix⟩ := hjournals e hmem
        exact ⟨_, _, rfl, htallies.increment _, List.suffix_append_self_iff.mpr hsuffix⟩
  · exact h.chance
  · exact h.exclusive
  · rw [hinits]
    exact h.few

/-- What a send does to the settings. -/
theorem Settled.sendtoErr (h : Settled env rate l log) (hfew : inits log < 2 ^ 22) {buf : Bytes}
    {wire : Option Bytes} (hstep : (calls env rate).step l (.sendtoErr buf wire) l') :
    ∃ x, l'.pktMgr = l.pktMgr.after buf x ∧ l.pktMgr.Fate buf x wire ∧
      Settled env rate l' (log ++ [.sendtoErr buf wire]) := by
  obtain ⟨n, hsend, hsettings, -⟩ := hstep
  obtain ⟨hbuf, number, hprint⟩ := PacketManager.printed_of_sendtoErr hsend
  obtain ⟨x, wire', hown, hfate⟩ :=
    PacketManager.sendtoErr_fate (h.configured hfew) hbuf hprint
  obtain ⟨-, rfl, hpktMgr⟩ := PacketManager.Sending.mk.inj
    (Option.some.inj (Except.ok.inj (hown.symm.trans hsend)))
  exact ⟨x, hpktMgr.symm, hfate, h.sent hpktMgr.symm hsettings wire'⟩

theorem Settled.step (h : Settled env rate l log) (hfew : inits log < 2 ^ 22) {c : SendErrCall}
    (hstep : (calls env rate).step l c l') : Settled env rate l' (log ++ [c]) := by
  cases c with
  | init a =>
      obtain ⟨hrate, rfl⟩ := hstep
      exact h.init hrate
  | forkMod child =>
      cases hstep
      exact h.forkMod child
  | sendtoErr buf wire =>
      obtain ⟨x, -, -, h'⟩ := h.sendtoErr hfew hstep
      exact h'

/-- There is no less to be counted after a call. -/
theorem inits_le (log : List SendErrCall) (c : SendErrCall) : inits log ≤ inits (log ++ [c]) := by
  rw [inits_append]
  exact Nat.le_add_right _ _

theorem settled_of_reachable (h : (runs env rate).Reachable (l, log))
    (hfew : inits log < 2 ^ 22) : Settled env rate l log := by
  refine System.Reachable.invariant (S := runs env rate)
    (P := fun x => inits x.2 < 2 ^ 22 → Settled env rate x.1 x.2) ?_ ?_ h hfew
  · rintro ⟨l, log⟩ ⟨hinit, rfl⟩ -
    exact .initial hinit
  · rintro ⟨l, log⟩ c ⟨l', log'⟩ - ih ⟨hstep, rfl⟩ hfew
    have hbefore := Nat.lt_of_le_of_lt (inits_le log c) hfew
    exact (ih hbefore).step hbefore hstep

/-! ## What is sent -/

/-- A PDU is sent as it is, or not at all, or with a byte flipped. -/
theorem Settled.sendtoErr_pdu (h : Settled env rate l log) (hfew : inits log < 2 ^ 22)
    (o : ByteOrder) (s : UInt32) {flag : Byte} {payload : Bytes}
    (hpayload : payload.length ≤ 1400) (hnumber : Numerable flag payload) :
    ∃ wire m, l.pktMgr.sendtoErr (encodePDU o s flag payload)
        = .ok (some ⟨(encodePDU o s flag payload).length, wire, m⟩) ∧
      ∀ b, wire = some b → b = encodePDU o s flag payload ∨
        ∃ i < (encodePDU o s flag payload).length,
          b = errorFlipBits (encodePDU o s flag payload) i ∧ ∀ o', inCksum o' b ≠ 0 := by
  have hheader : pduHeaderLen ≤ (encodePDU o s flag payload).length := by
    rw [length_encodePDU]
    exact Nat.le_add_right _ _
  obtain ⟨number, hprint⟩ := exists_printType o s hnumber
  obtain ⟨x, wire, hsend, hfate⟩ := PacketManager.sendtoErr_fate (h.configured hfew) hheader hprint
  refine ⟨wire, _, hsend, fun b hb => ?_⟩
  subst hb
  cases hfate with
  | kept => exact .inl rfl
  | flipped _ _ _ _ hi =>
      exact .inr ⟨_, hi, rfl, fun o' => inCksum_flip o o' s flag hpayload hi⟩

/-- **Nothing else reaches the network**: whatever the process has called before, a PDU is sent as
it is, or not at all, or with a byte flipped, which every receiver notices; and its sender learns
nothing of that. Only an RR or SREJ without its number is read past its end. -/
theorem wire_of_reachable (h : (runs env rate).Reachable (l, log)) (hfew : inits log < 2 ^ 22)
    (o : ByteOrder) (s : UInt32) (flag : Byte) {payload : Bytes}
    (hpayload : payload.length ≤ 1400) :
    (Numerable flag payload → ∃ wire m, l.pktMgr.sendtoErr (encodePDU o s flag payload)
        = .ok (some ⟨(encodePDU o s flag payload).length, wire, m⟩) ∧
      ∀ b, wire = some b → b = encodePDU o s flag payload ∨
        ∃ i < (encodePDU o s flag payload).length,
          b = errorFlipBits (encodePDU o s flag payload) i ∧ ∀ o', inCksum o' b ≠ 0) ∧
    (¬ Numerable flag payload →
      l.pktMgr.sendtoErr (encodePDU o s flag payload) = .error .indexOutOfBounds) :=
  ⟨(settled_of_reachable h hfew).sendtoErr_pdu hfew o s hpayload,
    PacketManager.sendtoErr_error o s l.pktMgr⟩

/-- **The journal is complete**: behind the drop list there is a journal for every `sendErr_init`.
The first holds the sequence numbers of all datagrams that are not on the drop list, in order,
whatever was dropped or damaged by chance, and so does every later one from the call on that has
begun it. Their counts are right. -/
theorem journal_of_reachable (h : (runs env rate).Reachable (l, log))
    (hfew : inits log < 2 ^ 22) :
    (∃ count journals, l.pktMgr.errorCaseConstant
        = env.standard ++ .infoSeqNo count (recorded env.dropList 0 (sends log)) :: journals ∧
      journals.length = inits log ∧ ∀ e ∈ journals, ∃ count history,
        e = .infoSeqNo count history ∧ history <:+ recorded env.dropList 0 (sends log)) ∧
    ∀ count history, .infoSeqNo count history ∈ l.pktMgr.errorCaseConstant →
      count.length = history.dedup.length ∧
      ∀ key, (count.lookup key).getD 0 = UInt32.ofNat (history.count key) := by
  have hsettled := settled_of_reachable h hfew
  obtain ⟨count, journals, hconstant, htallies, hnumber, hjournals⟩ := hsettled.constant
  refine ⟨⟨count, journals, hconstant, hnumber, fun e he => ?_⟩, fun count' history hmem => ?_⟩
  · obtain ⟨count, history, heq, -, hsuffix⟩ := hjournals e he
    exact ⟨count, history, heq, hsuffix⟩
  · have htallies' : Tallies count' history := by
      rw [hconstant, List.mem_append, List.mem_cons] at hmem
      rcases hmem with hmem | heq | hmem
      · rw [Environment.standard] at hmem
        split at hmem
        · cases hmem
        · cases List.mem_singleton.mp hmem
      · cases heq
        exact htallies
      · obtain ⟨count, history, heq, htallies', -⟩ := hjournals _ hmem
        cases heq
        exact htallies'
    exact ⟨htallies'.length_eq, htallies'.getD_lookup⟩

end

end SendErr

/-! ## A drop list -/

namespace SettingsManager

/-- **A list of numbers is read as it was written**, with a comma between two of them. -/
theorem parser2ListLong_intercalate {ls : List Int}
    (hls : ∀ x ∈ ls, -9223372036854775808 ≤ x ∧ x ≤ 9223372036854775807) :
    parser2ListLong ([44].intercalate (ls.map Decimal.decimal)) = ls := by
  have htokens : ∀ t ∈ ls.map Decimal.decimal, t ≠ [] ∧ 44 ∉ t := by
    intro t ht
    obtain ⟨x, -, rfl⟩ := List.mem_map.mp ht
    exact ⟨Decimal.decimal_ne_nil x, Decimal.comma_notMem_decimal x⟩
  rw [parser2ListLong, Decimal.strtok_intercalate htokens]
  clear htokens
  induction ls with
  | nil => rfl
  | cons x ls ih =>
      obtain ⟨hlower, hupper⟩ := hls x List.mem_cons_self
      rw [List.map_cons, values, Decimal.strtol_decimal hlower hupper]
      exact congrArg (x :: ·) (ih fun y hy => hls y (List.mem_cons_of_mem _ hy))

end SettingsManager

/-- The variable for a list of packets. -/
def dropString (ns : List Nat) : Bytes :=
  [44].intercalate (ns.map fun n : Nat => Decimal.decimal n)

theorem dropList_dropString {env : Environment} {ns : List Nat} (hns : ∀ n ∈ ns, n < 2 ^ 32)
    (henv : env.errDrop = some (dropString ns)) : env.dropList = ns.map UInt32.ofNat := by
  have hread : SettingsManager.parser2ListLong (dropString ns)
      = ns.map fun n : Nat => (n : Int) := by
    have hstring : dropString ns
        = [44].intercalate ((ns.map fun n : Nat => (n : Int)).map Decimal.decimal) := by
      rw [List.map_map]
      rfl
    rw [hstring]
    refine SettingsManager.parser2ListLong_intercalate fun x hx => ?_
    obtain ⟨n, hn, rfl⟩ := List.mem_map.mp hx
    have := hns n hn
    omega
  have hall : (ns.map fun n : Nat => (n : Int)).filter (0 ≤ ·)
      = ns.map fun n : Nat => (n : Int) := by
    refine List.filter_eq_self.mpr fun x hx => ?_
    obtain ⟨n, -, rfl⟩ := List.mem_map.mp hx
    exact decide_eq_true (Int.natCast_nonneg n)
  rw [Environment.dropList, henv]
  show SettingsManager.parserLong2Uint32 (SettingsManager.parser2ListLong (dropString ns)) = _
  rw [hread, SettingsManager.parserLong2Uint32, hall, List.map_map]
  refine List.map_congr_left fun n hn => ?_
  have hlt := hns n hn
  apply UInt32.toNat_inj.mp
  rw [Function.comp_apply, toNat_toUInt32_natCast hlt, UInt32.toNat_ofNat']
  omega

namespace SendErr

section
variable {env : Environment} {rate : CFloat} {l l' : SendErr} {log : List SendErrCall}

/-- Where there is a drop list, nothing else is dropped. -/
theorem Settled.dropped_iff (h : Settled env rate l log) (hlist : env.dropList ≠ []) {buf : Bytes}
    {x : Rand48} {wire : Option Bytes} (hfate : l.pktMgr.Fate buf x wire) :
    wire = none ↔ UInt32.ofNat ((sends log).length + 1) ∈ env.dropList := by
  have hlists := h.lists
  cases hfate with
  | kept hquiet =>
      rw [hquiet] at hlists
      exact iff_of_false (Option.some_ne_none buf) (of_decide_eq_false hlists.symm)
  | listed hdrop =>
      rw [hdrop] at hlists
      exact iff_of_true rfl (of_decide_eq_true hlists.symm)
  | dropped _ hchance => exact absurd hchance (h.exclusive hlist)
  | flipped hquiet =>
      rw [hquiet] at hlists
      exact iff_of_false (Option.some_ne_none _) (of_decide_eq_false hlists.symm)

/-- What holds of every datagram when it is sent holds of all of them afterwards. -/
theorem all_sends {p : Nat → Bytes → Option Bytes → Prop}
    (hstep : ∀ l log l' buf wire, (runs env rate).Reachable (l, log) → inits log < 2 ^ 22 →
      (calls env rate).step l (.sendtoErr buf wire) l' → p (sends log).length buf wire)
    (h : (runs env rate).Reachable (l, log)) (hfew : inits log < 2 ^ 22) {i : Nat} {buf : Bytes}
    {wire : Option Bytes} (hi : (sends log)[i]? = some (buf, wire)) : p i buf wire := by
  suffices hinv : ∀ x : SendErr × List SendErrCall, (runs env rate).Reachable x →
      inits x.2 < 2 ^ 22 → ∀ i buf wire, (sends x.2)[i]? = some (buf, wire) → p i buf wire from
    hinv _ h hfew i buf wire hi
  intro x hx
  refine System.Reachable.invariant (S := runs env rate) (P := fun x => inits x.2 < 2 ^ 22 →
    ∀ i buf wire, (sends x.2)[i]? = some (buf, wire) → p i buf wire) ?_ ?_ hx
  · rintro ⟨l, log⟩ ⟨-, rfl⟩ - i buf wire hi
    cases hi
  · rintro ⟨l, log⟩ c ⟨l', log'⟩ hreach ih ⟨hcall, rfl⟩ hfew i buf wire hi
    have hbefore := Nat.lt_of_le_of_lt (inits_le log c) hfew
    have hsends : (sends log ++ sends [c])[i]? = some (buf, wire) :=
      (congrArg (·[i]?) (sends_append log [c])).symm.trans hi
    rcases Nat.lt_or_ge i (sends log).length with hlt | hge
    · rw [List.getElem?_append_left hlt] at hsends
      exact ih hbefore i buf wire hsends
    · rw [List.getElem?_append_right hge] at hsends
      cases c with
      | init a => cases hsends
      | forkMod child => cases hsends
      | sendtoErr buf' wire' =>
          rw [show sends [.sendtoErr buf' wire'] = [(buf', wire')] from rfl,
            List.getElem?_singleton] at hsends
          split at hsends
          · next hzero =>
              obtain ⟨rfl, rfl⟩ := Prod.mk.inj (Option.some.inj hsends)
              obtain rfl : i = (sends log).length := by omega
              exact hstep _ _ _ _ _ hreach hbefore hcall
          · cases hsends

/-- **A drop list drops what is on it, and nothing else.** With the numbers `ns` in the
environment, the datagram with number `i + 1`, counted over the life of the process and that of its
parents, is not sent if and only if its number is one of them, whatever error rate and flags there
are. -/
theorem dropped_iff_of_reachable {ns : List Nat} (hne : ns ≠ []) (hns : ∀ n ∈ ns, n < 2 ^ 32)
    (henv : env.errDrop = some (dropString ns)) (h : (runs env rate).Reachable (l, log))
    (hfew : inits log < 2 ^ 22) {i : Nat} {buf : Bytes} {wire : Option Bytes}
    (hi : (sends log)[i]? = some (buf, wire)) : wire = none ↔ (i + 1) % 2 ^ 32 ∈ ns := by
  have hlist := dropList_dropString hns henv
  have hmem : UInt32.ofNat (i + 1) ∈ env.dropList ↔ (i + 1) % 2 ^ 32 ∈ ns := by
    rw [hlist, List.mem_map]
    constructor
    · rintro ⟨n, hn, heq⟩
      have hnat := congrArg UInt32.toNat heq
      rw [UInt32.toNat_ofNat', UInt32.toNat_ofNat', Nat.mod_eq_of_lt (hns n hn)] at hnat
      exact hnat ▸ hn
    · intro hk
      refine ⟨_, hk, UInt32.toNat_inj.mp ?_⟩
      rw [UInt32.toNat_ofNat', UInt32.toNat_ofNat', Nat.mod_mod]
  rw [← hmem]
  refine all_sends (p := fun i _ wire => wire = none ↔ UInt32.ofNat (i + 1) ∈ env.dropList)
    (fun l log l' buf wire hreach hfew hstep => ?_) h hfew hi
  have hsettled := settled_of_reachable hreach hfew
  obtain ⟨x, -, hfate, -⟩ := hsettled.sendtoErr hfew hstep
  refine hsettled.dropped_iff ?_ hfate
  rw [hlist]
  exact fun hc => hne (List.map_eq_nil_iff.mp hc)

end

/-! ### A drop list of two numbers -/

/-- The first datagram and the third are to be dropped, and something is to happen to all. -/
def smallEnvironment : Environment where
  seedRand := some [55]
  errRate := some (.finite 1)
  errDrop := some (dropString [1, 3])
  errFlip := none

/-- Whatever `sendErr_init` says. -/
def smallSendErr : SendErr :=
  (load smallEnvironment 0).init ⟨.finite 0, true, true, true, 0, 0⟩

theorem initial_smallSendErr :
    (runs smallEnvironment (.finite 0)).Reachable (smallSendErr, []) :=
  .init ⟨⟨0, _, rfl, rfl⟩, rfl⟩

/-- Three PDUs. -/
def smallPdus : List Bytes :=
  [encodePDU .big 7 dataPacketFlag [1], encodePDU .big 8 dataPacketFlag [2],
    encodePDU .big 9 dataPacketFlag [3]]

/-- The run that sends them. -/
theorem exists_smallRun : ∃ l log, (runs smallEnvironment (.finite 0)).Reachable (l, log) ∧
    inits log < 2 ^ 22 ∧ inits log = 0 ∧ ∃ wire wire' wire'', sends log = [
      (encodePDU .big 7 dataPacketFlag [1], wire), (encodePDU .big 8 dataPacketFlag [2], wire'),
      (encodePDU .big 9 dataPacketFlag [3], wire'')] := by
  obtain ⟨⟨l, log⟩, hreach, hp⟩ := initial_smallSendErr.exists_of_run sendNext
    (fun _ _ _ => runs_of_sendNext smallEnvironment (.finite 0)) smallPdus
    (fun x => decide (inits x.2 = 0 ∧ (sends x.2).map Prod.fst = smallPdus)) (by decide +kernel)
  obtain ⟨hinits, hbufs⟩ := of_decide_eq_true hp
  obtain ⟨sent, rest, hsent, hbuf, hrest⟩ := List.map_eq_cons_iff.mp hbufs
  obtain ⟨sent', rest', rfl, hbuf', hrest'⟩ := List.map_eq_cons_iff.mp hrest
  obtain ⟨sent'', rest'', rfl, hbuf'', hnil⟩ := List.map_eq_cons_iff.mp hrest'
  obtain rfl := List.map_eq_nil_iff.mp hnil
  refine ⟨l, log, hreach, ?_, hinits, sent.2, sent'.2, sent''.2, ?_⟩
  · rw [show inits log = 0 from hinits]
    decide
  · rw [show sends log = [sent, sent', sent''] from hsent, ← hbuf, ← hbuf', ← hbuf'']

theorem dropped_iff_smallSendErr : ∃ l log wire,
    (runs smallEnvironment (.finite 0)).Reachable (l, log) ∧
    (sends log)[0]? = some (encodePDU .big 7 dataPacketFlag [1], none) ∧
    (sends log)[1]? = some (encodePDU .big 8 dataPacketFlag [2], some wire) ∧
    (sends log)[2]? = some (encodePDU .big 9 dataPacketFlag [3], none) := by
  obtain ⟨l, log, hreach, hfew, -, wire, wire', wire'', hsends⟩ := exists_smallRun
  have hdropped {i : Nat} {buf : Bytes} {wire : Option Bytes}
      (hi : (sends log)[i]? = some (buf, wire)) : wire = none ↔ (i + 1) % 2 ^ 32 ∈ [1, 3] :=
    dropped_iff_of_reachable (List.cons_ne_nil _ _) (by decide) rfl hreach hfew hi
  have hfirst : wire = none := (hdropped (i := 0) (by rw [hsends]; rfl)).mpr (by decide)
  have hsecond : wire' ≠ none := (hdropped (i := 1) (by rw [hsends]; rfl)).not.mpr (by decide)
  have hthird : wire'' = none := (hdropped (i := 2) (by rw [hsends]; rfl)).mpr (by decide)
  obtain ⟨b, rfl⟩ := Option.ne_none_iff_exists'.mp hsecond
  exact ⟨l, log, b, hreach, by rw [hsends, hfirst]; rfl, by rw [hsends]; rfl,
    by rw [hsends, hthird]; rfl⟩

/-- A fourth PDU gets through as it is, or is damaged. -/
theorem wire_smallSendErr : ∃ l log wire m,
    (runs smallEnvironment (.finite 0)).Reachable (l, log) ∧ (sends log).length = 3 ∧
    l.pktMgr.sendtoErr (encodePDU .big 10 eofFlag [0])
      = .ok (some ⟨(encodePDU .big 10 eofFlag [0]).length, wire, m⟩) ∧
    (∀ b, wire = some b → b = encodePDU .big 10 eofFlag [0] ∨
      ∃ i < (encodePDU .big 10 eofFlag [0]).length,
        b = errorFlipBits (encodePDU .big 10 eofFlag [0]) i ∧ ∀ o', inCksum o' b ≠ 0) ∧
    l.pktMgr.sendtoErr (encodePDU .big 10 rrFlag [0]) = .error .indexOutOfBounds := by
  obtain ⟨l, log, hreach, hfew, -, wire, wire', wire'', hsends⟩ := exists_smallRun
  have hpayload : ([0] : Bytes).length ≤ 1400 := by decide
  obtain ⟨b, m, hsend, hb⟩ := (wire_of_reachable hreach hfew .big 10 eofFlag hpayload).1 (by decide)
  have hshort := (wire_of_reachable hreach hfew .big 10 rrFlag hpayload).2 (by decide)
  exact ⟨l, log, b, m, hreach, by rw [hsends]; rfl, hsend, hb, hshort⟩

/-- The journal has the second. -/
theorem journal_smallSendErr : ∃ l log count,
    (runs smallEnvironment (.finite 0)).Reachable (l, log) ∧ (sends log).length = 3 ∧
    l.pktMgr.errorCaseConstant = [.errorDrop false [1, 3], .infoSeqNo count [8]] ∧
    count.length = 1 := by
  obtain ⟨l, log, hreach, hfew, hinits, wire, wire', wire'', hsends⟩ := exists_smallRun
  obtain ⟨⟨count, journals, hconstant, hnumber, -⟩, hcounts⟩ := journal_of_reachable hreach hfew
  have hlist : smallEnvironment.dropList = [1, 3] := by decide +kernel
  have hrecorded : recorded smallEnvironment.dropList 0 (sends log) = [8] := by
    rw [hsends, hlist]
    rfl
  obtain rfl := List.eq_nil_of_length_eq_zero (hnumber.trans hinits)
  rw [hrecorded, Environment.standard, hlist] at hconstant
  refine ⟨l, log, count, hreach, by rw [hsends]; rfl, hconstant, ?_⟩
  exact (hcounts count [8] (hconstant ▸ List.mem_cons_of_mem _ List.mem_cons_self)).1

end SendErr

end RemoteCopy

import Mathlib.Data.Finset.Basic
import Mathlib.Data.Rat.Defs
import QuantumSentinel.Lib.Transition

/-!
# Risk: kill switches

A switch is kept in Redis and in two sets of every worker process.  An operation writes Redis and
the sets of the worker that handles it; the risk gate of a worker asks its own set before Redis.

Main results:

- Definition `assertRiskGate`: the gate in front of every order.
- Definition `manageKillSwitch`: the endpoint that sets and clears switches.
- Theorem `switchesOk_of_reachable`: what Redis and the local sets hold.
- Theorem `kill_switches_agree`: all gates follow the latest operations, when no clear leaves
  a local entry of its switch behind.

Current gaps:

- A Redis that fails during an operation; a gate that cannot read it is modelled.
- Identifiers that are neither text nor `null`.
-/

namespace QuantumSentinel.Risk

open Lib

/-! ## Switches -/

/-- `HTTPException` -/
structure HttpError where
  status : ℕ
  detail : String
deriving DecidableEq, Repr

/-- The scope of a switch. -/
inductive Scope
  | global
  | user
  | asset
deriving DecidableEq, Repr

/-- The name of a scope. -/
def Scope.text : Scope → String
  | .global => "global"
  | .user => "user"
  | .asset => "asset"

/-- The scope of a name, if it is one. -/
def Scope.ofText? (name : String) : Option Scope :=
  if name = "global" then some .global
  else if name = "user" then some .user
  else if name = "asset" then some .asset
  else none

/-- `_kill_key` -/
def killKey (scope : Scope) (identifier : Option String) : String :=
  match identifier with
  | some id =>
    if id = "" then "qs:risk:kill:" ++ scope.text else "qs:risk:kill:" ++ scope.text ++ ":" ++ id
  | none => "qs:risk:kill:" ++ scope.text

/-- An element of `_KILL_SWITCHES`. -/
abbrev Entry := Scope × Option String

/-- A switch that orders are checked against. -/
inductive Switch
  | global
  | user (id : String)
  | asset (symbol : String)
deriving DecidableEq, Repr

/-- The switch as the gate names it. -/
def Switch.entry : Switch → Entry
  | .global => (.global, none)
  | .user id => (.user, some id)
  | .asset symbol => (.asset, some symbol)

/-- The key of the switch that the gate reads. -/
def Switch.key (switch : Switch) : String :=
  killKey switch.entry.1 switch.entry.2

/-- What the deployment is given. -/
structure RiskConfig where
  /-- `str.upper` -/
  upper : String → String
  /-- `PAPER_MAX_POSITION_FRACTION` -/
  maxPositionFraction : ℚ
  /-- that fraction as a percentage -/
  fractionText : String
  /-- `ENVIRONMENT == "production"` -/
  production : Bool

namespace RiskConfig

variable (cfg : RiskConfig)

/-- `normalized_id` -/
def normalizedId (scope : Scope) (identifier : Option String) : Option String :=
  match scope, identifier with
  | .asset, some id => if id = "" then some id else some (cfg.upper id)
  | _, _ => identifier

/-! ## The gate -/

/-- `side` -/
inductive OrderSide
  | buy
  | sell
deriving DecidableEq, Repr

/-- What the gate is asked about. -/
structure GateOrder where
  userId : String
  asset : String
  side : OrderSide
  quantity : ℚ
  price : ℚ
  heldQuantity : ℚ
  accountEquity : ℚ
  currentGrossExposure : ℚ

/-- The three switches of an order. -/
def orderSwitches (order : GateOrder) : List Switch :=
  [.global, .user order.userId, .asset (cfg.upper order.asset)]

/-- `is_kill_switch_active` through `run_sync`: nothing when Redis cannot be read in
production. -/
def readSwitch (reachable : Bool) (redis memory : Finset String) (entry : Entry) : Option Bool :=
  let key := killKey entry.1 entry.2
  if reachable then some (decide (key ∈ redis))
  else if cfg.production then none
  else some (decide (key ∈ memory))

/-- `assert_risk_gate`; without a Redis client there is nothing to read. -/
def assertRiskGate (locals : Finset Entry) (read : Option (Entry → Option Bool))
    (order : GateOrder) : Except HttpError Unit :=
  let entries := (cfg.orderSwitches order).map Switch.entry
  let here := entries.any fun entry => decide (entry ∈ locals)
  let states :=
    match read with
    | some read => if here then [] else entries.map read
    | none => []
  let notional := order.quantity * order.price
  if states.any Option.isNone && cfg.production then
    .error ⟨503, "risk state unavailable; order not accepted"⟩
  else if here || states.any fun state => state.getD false then
    .error ⟨423, "trading kill switch is active"⟩
  else if order.accountEquity * cfg.maxPositionFraction < notional then
    .error ⟨400, "risk gate: order exceeds " ++ cfg.fractionText ++
      " account-equity notional limit"⟩
  else if order.side = .sell ∧ order.heldQuantity < order.quantity then
    .error ⟨400, "risk gate: sell quantity exceeds available paper position"⟩
  else if order.accountEquity <
      order.currentGrossExposure + (if order.side = .buy then notional else 0) then
    .error ⟨400, "risk gate: leverage limit exceeded"⟩
  else .ok ()

end RiskConfig

/-! ## Operations -/

/-- The caller of the endpoint. -/
structure Caller where
  id : String
  /-- `_is_admin` -/
  operator : Bool

/-- The body of the endpoint, with its defaults filled in. -/
structure KillRequest where
  scope : String
  identifier : Option String
  enabled : Bool

/-- An operation on the switches, behind the checks of the endpoint. -/
structure SwitchOp where
  scope : Scope
  identifier : Option String
  enabled : Bool
deriving DecidableEq, Repr

/-- The checks of `manage_kill_switch`. -/
def checkKillRequest (caller : Caller) (body : KillRequest) : Except HttpError SwitchOp :=
  match Scope.ofText? body.scope with
  | none => .error ⟨400, "scope must be global, user, or asset"⟩
  | some .user =>
    let identifier := body.identifier.getD caller.id
    if identifier ≠ caller.id ∧ caller.operator = false then
      .error ⟨403, "not permitted to set a kill switch for another user"⟩
    else .ok ⟨.user, some identifier, body.enabled⟩
  | some scope =>
    if caller.operator then .ok ⟨scope, body.identifier, body.enabled⟩
    else .error ⟨403, scope.text ++ " kill switches require operator privileges"⟩

/-- The switch an operation is about. -/
def SwitchOp.switch (cfg : RiskConfig) (op : SwitchOp) : Switch :=
  match op.scope with
  | .global => .global
  | .user => .user (op.identifier.getD "")
  | .asset => .asset ((cfg.normalizedId .asset op.identifier).getD "")

/-- The element of the local set an operation adds or discards. -/
def SwitchOp.entry (cfg : RiskConfig) (op : SwitchOp) : Entry :=
  (op.scope, cfg.normalizedId op.scope op.identifier)

/-- The key an operation sets or deletes. -/
def SwitchOp.key (cfg : RiskConfig) (op : SwitchOp) : String :=
  killKey (op.entry cfg).1 (op.entry cfg).2

/-- `add` or `discard`. -/
def put {α : Type} [DecidableEq α] (items : Finset α) (a : α) (enabled : Bool) : Finset α :=
  if enabled then insert a items else items.erase a

section System

variable {W : Type} [DecidableEq W]

/-- Redis, the sets of the workers, and the accepted operations, the latest first. -/
structure SwitchState (W : Type) where
  redis : Finset String
  /-- `_mem_kill_switches` -/
  memory : W → Finset String
  /-- `_KILL_SWITCHES` -/
  locals : W → Finset Entry
  history : List (Switch × Bool)

/-- `set_kill_switch_async` on a worker. -/
def SwitchState.apply (cfg : RiskConfig) (s : SwitchState W) (worker : W) (op : SwitchOp) :
    SwitchState W where
  redis := put s.redis (op.key cfg) op.enabled
  memory := Function.update s.memory worker (put (s.memory worker) (op.key cfg) op.enabled)
  locals := Function.update s.locals worker (put (s.locals worker) (op.entry cfg) op.enabled)
  history := (op.switch cfg, op.enabled) :: s.history

/-- A call of the endpoint. -/
structure KillCall (W : Type) where
  worker : W
  caller : Caller
  body : KillRequest

/-- `manage_kill_switch` with a Redis client. -/
def manageKillSwitch (cfg : RiskConfig) (s : SwitchState W) (call : KillCall W) :
    Except HttpError (SwitchState W) :=
  (s.apply cfg call.worker) <$> checkKillRequest call.caller call.body

/-- The switches of a deployment; a refused call changes nothing. -/
def killSwitches (W : Type) [DecidableEq W] (cfg : RiskConfig) :
    Machine (SwitchState W) (KillCall W) where
  init := ⟨∅, fun _ => ∅, fun _ => ∅, []⟩
  step s call :=
    match manageKillSwitch cfg s call with
    | .ok s' => some s'
    | .error _ => some s

/-- The gate of a worker, with Redis in reach. -/
def SwitchState.gate (cfg : RiskConfig) (s : SwitchState W) (worker : W)
    (order : RiskConfig.GateOrder) : Except HttpError Unit :=
  cfg.assertRiskGate (s.locals worker)
    (some (cfg.readSwitch true s.redis (s.memory worker))) order

/-- Whether the latest operation on a switch set it. -/
def isSet (history : List (Switch × Bool)) (switch : Switch) : Bool :=
  ((history.find? fun item => item.1 = switch).map Prod.snd).getD false

/-- Whether the latest operations halt an order. -/
def halted (cfg : RiskConfig) (history : List (Switch × Bool))
    (order : RiskConfig.GateOrder) : Bool :=
  isSet history .global || isSet history (.user order.userId) ||
    isSet history (.asset (cfg.upper order.asset))

end System

/-! ## Keys and entries -/

/-- What a key says behind its fixed beginning. -/
theorem killKey_toList (scope : Scope) (id : Option String) :
    (killKey scope id).toList = "qs:risk:kill:".toList ++ (scope.text.toList ++
      if id.getD "" = "" then [] else ':' :: (id.getD "").toList) := by
  cases id with
  | none => simp [killKey]
  | some id =>
    by_cases hid : id = ""
    · simp [killKey, hid]
    · simp [killKey, hid]

/-- The name of a scope and what follows it are read back. -/
theorem Scope.text_cancel {scope scope' : Scope} {rest rest' : List Char}
    (h : scope.text.toList ++ rest = scope'.text.toList ++ rest') :
    scope = scope' ∧ rest = rest' := by
  cases scope <;> cases scope' <;> simp [Scope.text] at h ⊢ <;> exact h

/-- A key names its scope and its identifier, up to the empty identifier. -/
theorem killKey_inj {scope scope' : Scope} {id id' : Option String}
    (h : killKey scope id = killKey scope' id') :
    scope = scope' ∧ id.getD "" = id'.getD "" := by
  have hlist := congrArg String.toList h
  rw [killKey_toList, killKey_toList] at hlist
  have hrest := List.append_cancel_left hlist
  rcases Scope.text_cancel hrest with ⟨hscope, htail⟩
  refine ⟨hscope, ?_⟩
  split at htail <;> split at htail
  · rename_i hid hid'
    rw [hid, hid']
  · cases htail
  · cases htail
  · rw [List.cons.injEq] at htail
    exact String.toList_inj.mp htail.2

/-- What the key of an operation says about its switch. -/
theorem SwitchOp.switch_of_key {cfg : RiskConfig} {op : SwitchOp} {switch : Switch}
    (h : op.key cfg = switch.key) : op.switch cfg = switch := by
  rcases op with ⟨scope, identifier, enabled⟩
  rcases killKey_inj h with ⟨hscope, hid⟩
  simp only [SwitchOp.entry] at hscope hid
  subst hscope
  cases switch with
  | global => rfl
  | user id => exact congrArg Switch.user hid
  | asset symbol => exact congrArg Switch.asset hid

/-- What the local entry of an operation says about its switch. -/
theorem SwitchOp.switch_of_entry {cfg : RiskConfig} {op : SwitchOp} {switch : Switch}
    (h : op.entry cfg = switch.entry) : op.switch cfg = switch := by
  apply SwitchOp.switch_of_key
  rw [SwitchOp.key, Switch.key, h]

/-- Membership after `add` or `discard`. -/
theorem mem_put {α : Type} [DecidableEq α] {items : Finset α} {a b : α} {enabled : Bool} :
    a ∈ put items b enabled ↔ (a = b ∧ enabled = true) ∨ (a ≠ b ∧ a ∈ items) := by
  cases enabled with
  | false => simp [put]
  | true =>
    by_cases hab : a = b
    · simp [put, hab]
    · simp [put, hab]

/-- The latest operation decides about its own switch only. -/
theorem isSet_cons (switch switch' : Switch) (enabled : Bool) (history : List (Switch × Bool)) :
    isSet ((switch, enabled) :: history) switch' =
      if switch = switch' then enabled else isSet history switch' := by
  by_cases hswitch : switch = switch'
  · simp [isSet, hswitch]
  · simp [isSet, hswitch]

/-! ## What the stores hold -/

section Stores

variable {W : Type} [DecidableEq W]

/-- Redis holds exactly the switches that are set, and no worker holds another. -/
structure SwitchesOk (s : SwitchState W) : Prop where
  redis : ∀ switch : Switch, switch.key ∈ s.redis ↔ isSet s.history switch = true
  locals : ∀ w, ∀ switch : Switch, switch.entry ∈ s.locals w → isSet s.history switch = true

/-- An operation writes the key the gate reads, or asks for what already is; and a clear leaves
its switch in no local set. -/
def SwitchOp.Follows (cfg : RiskConfig) (s : SwitchState W) (worker : W) (op : SwitchOp) : Prop :=
  (op.key cfg = (op.switch cfg).key ∨ isSet s.history (op.switch cfg) = op.enabled) ∧
  (op.enabled = false → ∀ w, (op.switch cfg).entry ∈ s.locals w →
    w = worker ∧ op.entry cfg = (op.switch cfg).entry)

/-- The same of the operation of a call, when the call is accepted. -/
def Follows (cfg : RiskConfig) (s : SwitchState W) (call : KillCall W) : Prop :=
  ∀ op, checkKillRequest call.caller call.body = .ok op → op.Follows cfg s call.worker

theorem SwitchesOk.init (cfg : RiskConfig) : SwitchesOk (killSwitches W cfg).init where
  redis _ := by simp [killSwitches, isSet]
  locals _ _ h := by simp [killSwitches] at h

/-- The key of another switch is not touched. -/
theorem SwitchOp.key_ne {cfg : RiskConfig} {op : SwitchOp} {switch : Switch}
    (h : op.switch cfg ≠ switch) : switch.key ≠ op.key cfg := by
  intro hkey
  exact h (SwitchOp.switch_of_key hkey.symm)

/-- What Redis holds of the switch of an operation, after it. -/
theorem mem_redis_apply {cfg : RiskConfig} {s : SwitchState W} {w : W} {op : SwitchOp}
    {switch : Switch} :
    switch.key ∈ (s.apply cfg w op).redis ↔
      (switch.key = op.key cfg ∧ op.enabled = true) ∨
        (switch.key ≠ op.key cfg ∧ switch.key ∈ s.redis) :=
  mem_put

/-- The local set of the worker that handles an operation, after it. -/
theorem mem_locals_apply_self {cfg : RiskConfig} {s : SwitchState W} {w : W} {op : SwitchOp}
    {entry : Entry} :
    entry ∈ (s.apply cfg w op).locals w ↔
      (entry = op.entry cfg ∧ op.enabled = true) ∨
        (entry ≠ op.entry cfg ∧ entry ∈ s.locals w) := by
  simp only [SwitchState.apply, Function.update_self]
  exact mem_put

/-- The local sets of the other workers stay. -/
theorem locals_apply_ne {cfg : RiskConfig} {s : SwitchState W} {w w' : W} {op : SwitchOp}
    (h : w' ≠ w) : (s.apply cfg w op).locals w' = s.locals w' :=
  Function.update_of_ne h _ _

/-- What the history says after an operation. -/
theorem isSet_apply {cfg : RiskConfig} {s : SwitchState W} {w : W} {op : SwitchOp}
    {switch : Switch} :
    isSet (s.apply cfg w op).history switch =
      if op.switch cfg = switch then op.enabled else isSet s.history switch :=
  isSet_cons ..

/-- Redis stays in order exactly when the key the gate reads is written or already right. -/
theorem redis_apply_iff {cfg : RiskConfig} {s : SwitchState W} (hs : SwitchesOk s) {w : W}
    {op : SwitchOp} :
    (∀ switch : Switch, switch.key ∈ (s.apply cfg w op).redis ↔
        isSet (s.apply cfg w op).history switch = true) ↔
      op.key cfg = (op.switch cfg).key ∨ isSet s.history (op.switch cfg) = op.enabled := by
  constructor
  · intro hok
    have hredis := hok (op.switch cfg)
    rw [mem_redis_apply, isSet_apply, if_pos rfl, hs.redis] at hredis
    by_cases hkey : op.key cfg = (op.switch cfg).key
    · exact .inl hkey
    · right
      simpa [Ne.symm hkey, Bool.coe_iff_coe] using hredis
  · intro hkey switch
    rw [mem_redis_apply, isSet_apply, hs.redis]
    by_cases hswitch : op.switch cfg = switch
    · subst hswitch
      rw [if_pos rfl]
      rcases hkey with hkey | hsame
      · simp [hkey]
      · rw [hsame]
        tauto
    · rw [if_neg hswitch]
      have hne := SwitchOp.key_ne hswitch
      simp [hne]

/-- The local sets stay in order exactly when a clear leaves none of its switch behind. -/
theorem locals_apply_iff {cfg : RiskConfig} {s : SwitchState W} (hs : SwitchesOk s) {w : W}
    {op : SwitchOp} :
    (∀ w', ∀ switch : Switch, switch.entry ∈ (s.apply cfg w op).locals w' →
        isSet (s.apply cfg w op).history switch = true) ↔
      (op.enabled = false → ∀ w', (op.switch cfg).entry ∈ s.locals w' →
        w' = w ∧ op.entry cfg = (op.switch cfg).entry) := by
  constructor
  · intro hok hclear w' hmem
    have hlocal := hok w' (op.switch cfg)
    rw [isSet_apply, if_pos rfl, hclear] at hlocal
    by_cases hw : w' = w
    · subst hw
      refine ⟨rfl, ?_⟩
      by_contra hentry
      have hstays := mem_locals_apply_self.mpr (.inr ⟨Ne.symm hentry, hmem⟩)
      cases hlocal hstays
    · rw [locals_apply_ne hw] at hlocal
      cases hlocal hmem
  · intro hclear w' switch hmem
    rw [isSet_apply]
    by_cases hw : w' = w
    · subst hw
      rcases mem_locals_apply_self.mp hmem with ⟨hentry, henabled⟩ | ⟨hne, hold⟩
      · rw [if_pos (SwitchOp.switch_of_entry hentry.symm)]
        exact henabled
      · split
        · rename_i hswitch
          subst hswitch
          by_contra hoff
          exact hne (hclear (by simpa using hoff) _ hold).2.symm
        · exact hs.locals _ _ hold
    · rw [locals_apply_ne hw] at hmem
      split
      · rename_i hswitch
        subst hswitch
        by_contra hoff
        exact hw (hclear (by simpa using hoff) _ hmem).1
      · exact hs.locals _ _ hmem

/-- An operation keeps the stores in order exactly when it follows the rules. -/
theorem switchesOk_apply_iff {cfg : RiskConfig} {s : SwitchState W} (hs : SwitchesOk s) {w : W}
    {op : SwitchOp} : SwitchesOk (s.apply cfg w op) ↔ op.Follows cfg s w := by
  constructor
  · intro hok
    exact ⟨(redis_apply_iff hs).mp hok.redis, (locals_apply_iff hs).mp hok.locals⟩
  · rintro ⟨hkey, hclear⟩
    exact ⟨(redis_apply_iff hs).mpr hkey, (locals_apply_iff hs).mpr hclear⟩

/-- A call keeps the stores in order exactly when it follows the rules. -/
theorem switchesOk_step_iff {cfg : RiskConfig} {s s' : SwitchState W} {call : KillCall W}
    (hs : SwitchesOk s) (hstep : (killSwitches W cfg).step s call = some s') :
    SwitchesOk s' ↔ Follows cfg s call := by
  simp only [killSwitches, manageKillSwitch] at hstep
  cases hop : checkKillRequest call.caller call.body with
  | error e =>
    rw [hop] at hstep
    cases hstep
    simp [Follows, hop, hs]
  | ok op =>
    rw [hop] at hstep
    cases hstep
    simp only [Follows, hop, Except.ok.injEq, forall_eq']
    exact switchesOk_apply_iff hs

/-- The stores are in order in every state reached by calls that follow the rules. -/
theorem switchesOk_of_reachable {cfg : RiskConfig} {s : SwitchState W}
    (hs : (killSwitches W cfg).ReachableUnder (Follows cfg) s) : SwitchesOk s :=
  Machine.ReachableUnder.invariant (I := SwitchesOk) (SwitchesOk.init cfg)
    (fun _ _ _ hcall hstep hok => (switchesOk_step_iff hok hstep).mpr hcall) hs

/-! ## The gates -/

/-- With every switch readable, the gate refuses when the local set or Redis has a switch of the
order. -/
theorem assertRiskGate_eq_halt_iff {cfg : RiskConfig} {locals : Finset Entry}
    {read : Entry → Bool} {order : RiskConfig.GateOrder} :
    cfg.assertRiskGate locals (some fun entry => some (read entry)) order =
        .error ⟨423, "trading kill switch is active"⟩ ↔
      ∃ switch ∈ cfg.orderSwitches order,
        switch.entry ∈ locals ∨ read switch.entry = true := by
  have hlocals : (((cfg.orderSwitches order).map Switch.entry).any fun entry =>
      decide (entry ∈ locals)) = true ↔
        ∃ switch ∈ cfg.orderSwitches order, switch.entry ∈ locals := by
    simp
  simp only [RiskConfig.assertRiskGate]
  by_cases hhere : ∃ switch ∈ cfg.orderSwitches order, switch.entry ∈ locals
  · rw [hlocals.mpr hhere]
    obtain ⟨switch, hswitch, hmem⟩ := hhere
    simp only [if_true, List.any_nil, Bool.false_and, Bool.false_eq_true, if_false, Bool.true_or,
      true_iff]
    exact ⟨switch, hswitch, .inl hmem⟩
  · rw [Bool.eq_false_iff.mpr (mt hlocals.mp hhere)]
    have hreads : (((cfg.orderSwitches order).map Switch.entry).map fun entry =>
        some (read entry)).any (fun state => state.getD false) = true ↔
          ∃ switch ∈ cfg.orderSwitches order, read switch.entry = true := by
      simp
    have hknown : (((cfg.orderSwitches order).map Switch.entry).map fun entry =>
        some (read entry)).any Option.isNone = false := by
      simp
    simp only [Bool.false_eq_true, if_false, hknown, Bool.false_and, Bool.false_or, hreads]
    split
    · rename_i hread
      obtain ⟨switch, hswitch, hset⟩ := hread
      simp only [true_iff]
      exact ⟨switch, hswitch, .inr hset⟩
    · rename_i hread
      have hfree : ¬ ∃ switch ∈ cfg.orderSwitches order,
          switch.entry ∈ locals ∨ read switch.entry = true := by
        rintro ⟨switch, hswitch, hlocal | hset⟩
        · exact hhere ⟨switch, hswitch, hlocal⟩
        · exact hread ⟨switch, hswitch, hset⟩
      simp only [hfree, iff_false]
      repeat' split
      all_goals simp

omit [DecidableEq W] in
/-- The gate with Redis in reach. -/
theorem gate_eq_halt_iff {cfg : RiskConfig} {s : SwitchState W} {w : W}
    {order : RiskConfig.GateOrder} :
    s.gate cfg w order = .error ⟨423, "trading kill switch is active"⟩ ↔
      ∃ switch ∈ cfg.orderSwitches order,
        switch.entry ∈ s.locals w ∨ switch.key ∈ s.redis := by
  have hread : cfg.readSwitch true s.redis (s.memory w) =
      fun entry => some (decide (killKey entry.1 entry.2 ∈ s.redis)) := rfl
  rw [SwitchState.gate, hread, assertRiskGate_eq_halt_iff]
  simp only [decide_eq_true_eq, Switch.key]

/-- What halts an order, switch by switch. -/
theorem halted_iff {cfg : RiskConfig} {history : List (Switch × Bool)}
    {order : RiskConfig.GateOrder} :
    halted cfg history order = true ↔
      ∃ switch ∈ cfg.orderSwitches order, isSet history switch = true := by
  simp [halted, RiskConfig.orderSwitches, or_assoc]

/-- When every call follows the rules, the gate of every worker refuses an order exactly when the
latest operation on one of its switches was a set. -/
theorem kill_switches_agree {cfg : RiskConfig} {s : SwitchState W}
    (hs : (killSwitches W cfg).ReachableUnder (Follows cfg) s) (w : W)
    (order : RiskConfig.GateOrder) :
    s.gate cfg w order = .error ⟨423, "trading kill switch is active"⟩ ↔
      halted cfg s.history order = true := by
  have hok := switchesOk_of_reachable hs
  rw [gate_eq_halt_iff, halted_iff]
  constructor
  · rintro ⟨switch, hswitch, hlocal | hredis⟩
    · exact ⟨switch, hswitch, hok.locals w switch hlocal⟩
    · exact ⟨switch, hswitch, (hok.redis switch).mp hredis⟩
  · rintro ⟨switch, hswitch, hset⟩
    exact ⟨switch, hswitch, .inr ((hok.redis switch).mpr hset)⟩

end Stores

/-- A development deployment. -/
def paperConfig : RiskConfig where
  upper text := String.ofList (text.toList.map Char.toUpper)
  maxPositionFraction := 1 / 20
  fractionText := "5%"
  production := false

/-- An operator's call on a worker. -/
def operatorCall (worker : ℕ) (scope : String) (identifier : Option String) (enabled : Bool) :
    KillCall ℕ :=
  ⟨worker, ⟨"operator", true⟩, ⟨scope, identifier, enabled⟩⟩

/-- A switch set on one worker stops the orders of every other. -/
theorem kill_switches_agree_elsewhere :
    ∃ s, (killSwitches ℕ paperConfig).ReachableUnder (Follows paperConfig) s ∧
      ∀ order : RiskConfig.GateOrder, order.asset = "AAPL" →
        s.gate paperConfig 1 order = .error ⟨423, "trading kill switch is active"⟩ := by
  have hrun : (killSwitches ℕ paperConfig).ReachableUnder (Follows paperConfig)
      ((killSwitches ℕ paperConfig).init.apply paperConfig 0 ⟨.asset, some "aapl", true⟩) := by
    refine (Machine.ReachableUnder.init _ _).step
      (a := operatorCall 0 "asset" (some "aapl") true) ?_ rfl
    rintro op hop
    cases hop
    exact ⟨.inl rfl, fun h => by cases h⟩
  refine ⟨_, hrun, fun order horder => ?_⟩
  rw [kill_switches_agree hrun]
  have hset : isSet [(.asset "AAPL", true)] (.asset (paperConfig.upper order.asset)) = true := by
    rw [horder]
    decide
  exact Bool.or_eq_true_iff.mpr (.inr hset)

/-- A switch cleared on another worker than it was set on. -/
theorem kill_switches_disagree :
    ¬ ∀ s, (killSwitches ℕ paperConfig).Reachable s → ∀ w order,
      (s.gate paperConfig w order = .error ⟨423, "trading kill switch is active"⟩ ↔
        halted paperConfig s.history order = true) := by
  intro hagree
  have hrun : (killSwitches ℕ paperConfig).Reachable
      (((killSwitches ℕ paperConfig).init.apply paperConfig 0 ⟨.global, none, true⟩).apply
        paperConfig 1 ⟨.global, none, false⟩) :=
    ⟨[operatorCall 0 "global" none true, operatorCall 1 "global" none false],
      Machine.run_of_exec rfl⟩
  have hgate := (hagree _ hrun 0 ⟨"u", "AAPL", .buy, 1, 100, 0, 100000, 0⟩).mp
    (gate_eq_halt_iff.mpr ⟨.global, by simp [RiskConfig.orderSwitches], .inl (by decide)⟩)
  revert hgate
  decide

end QuantumSentinel.Risk

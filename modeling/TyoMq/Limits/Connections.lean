import Mathlib.Data.List.Induction
import TyoMq.Lib.Runs
import TyoMq.Limits.Conformance

/-!
# Rate limits and quotas: the connections of an ip

`connectionAllowed` and `releaseConnection` over whole runs in which the configuration is reloaded
at will. A socket that connects while limits are off is let in without being counted. The settings are
read anew for each value, behind a cache of one second that may expire within a call.

* **Exact accounting** (`Limits.Sockets.connections_accounted`): the count of every ip is the number of its
  live sockets that were counted, in every state of a run, exactly when no uncounted socket is
  released while a counted one of its ip is live.
* **The cap** (`Limits.Sockets.bounded_run`): under a constant maximum there are then never more
  counted sockets of an ip than the maximum, when no admission finds limits on and then reads that they
  are off.
* **Releasing an uncounted socket** (`Limits.Sockets.miscounted_reload`) takes a counted one off the
  books, and a socket over the maximum is let in.
* **A cache that expires within the call** (`Limits.Sockets.overfull_expiredCache`) lets a socket over the
  maximum in, and counts it.
-/

namespace TyoMq

open TyoMq.Lib

namespace Limits

/-- A live socket.
Kind: D -/
structure Socket (σ : Type*) where
  /-- Which one. -/
  socket : σ
  /-- The ip it was admitted under. -/
  ip : JsString
  /-- Were limits on when it was admitted? -/
  counted : Bool

/-- The limiter, the settings block that is configured, and the live sockets.
Kind: D -/
structure Sockets (σ : Type*) where
  /-- The limiter. -/
  limits : Limits Double
  /-- The settings block. -/
  raw : Option (Config Double)
  /-- The sockets admitted and not yet released, newest first. -/
  live : List (Socket σ)

namespace Sockets

variable {σ : Type*} [DecidableEq σ]

/-- What happens: the settings are reloaded, a socket connects, a live socket is released, or another
check is made.
Kind: D -/
inductive Happening (σ : Type*) where
  | configure (raw : Option (Config Double))
  | connect (socket : σ) (ip : JsString) (now : ℕ → Double)
  | disconnect (socket : σ)
  | produceAllowed (socketId : JsString) (realm : Option JsString) (bytes : Double) (now : ℕ → Double)
  | realmCreationAllowed (ip : JsString) (now : ℕ → Double)
  | forgetSocket (socketId : JsString)

/-- One happening. A socket is released once: there is no call for one that is not live.
Kind: D -/
def step (s : Sockets σ) : Happening σ → Sockets σ
  | .configure raw => { s with raw := raw }
  | .connect socket ip now =>
      let admission := connectionAllowed s.raw s.limits ip now
      if admission.2.isOk then
        { s with
          limits := admission.1
          live := ⟨socket, ip, (s.limits.enabled s.raw (now 0)).2⟩ :: s.live }
      else { s with limits := admission.1 }
  | .disconnect socket =>
      match s.live.find? fun x => x.socket = socket with
      | none => s
      | some x =>
          { s with
            limits := s.limits.releaseConnection x.ip
            live := s.live.eraseP fun x => x.socket = socket }
  | .produceAllowed socketId realm bytes now =>
      { s with limits := (Limits.produceAllowed s.raw s.limits socketId realm bytes now).1 }
  | .realmCreationAllowed ip now =>
      { s with limits := (Limits.realmCreationAllowed s.raw s.limits ip now).1 }
  | .forgetSocket socketId => { s with limits := s.limits.forgetSocket socketId }

/-- The limiter of a broker that has just started.
Kind: D -/
def start (raw : Option (Config Double)) (now : Double) : Sockets σ := ⟨Limits.new now, raw, []⟩

/-- The count kept for an ip, under the name that stands for it.
Kind: D -/
def count (limits : Limits Double) (name : JsString) : ℕ := (limits.connections.get name).getD 0

/-- The live sockets of an ip that were admitted while limits were on.
Kind: D -/
def liveCounted (live : List (Socket σ)) (name : JsString) : ℕ :=
  live.countP fun x => x.counted && decide (ipName x.ip = name)

/-- Every count is the number of live sockets that were counted.
Kind: D -/
def Accounted (s : Sockets σ) : Prop := ∀ name, count s.limits name = liveCounted s.live name

/-- If the happening releases an uncounted socket, no counted socket of its ip is live.
Kind: D -/
def Releasable (s : Sockets σ) : Happening σ → Prop
  | .disconnect socket =>
      ∀ x, s.live.find? (fun x => x.socket = socket) = some x → x.counted = false →
        liveCounted s.live (ipName x.ip) = 0
  | _ => True

/-- If the happening is a connection that finds limits on, they are on when it reads the maximum: its
cache does not expire between the two readings with limits just switched off.
Kind: D -/
def Steady (s : Sockets σ) : Happening σ → Prop
  | .connect _ _ now => (s.limits.enabled s.raw (now 0)).2 = true →
      ((s.limits.enabled s.raw (now 0)).1.config s.raw (now 1)).2.isSome
  | _ => True

/-- No ip has more counted sockets than the maximum, rounded up.
Kind: D -/
def Bounded (max : ℚ) (s : Sockets σ) : Prop := ∀ name, (liveCounted s.live name : ℤ) ≤ ⌈max⌉

/-- Whenever limits are on, this is the maximum.
Kind: D -/
def HasMax (max : Double) (config : Option (Config Double)) : Prop :=
  config.isSome → valueOf config none .max_connections_per_ip = some max

/-! ### One call -/

section Calls

variable {limits : Limits Double} {raw : Option (Config Double)} {ip name : JsString} {now : ℕ → Double}
  {s : Sockets σ}

theorem connections_config (limits : Limits Double) (raw : Option (Config Double)) (t : Double) :
    (limits.config raw t).1.connections = limits.connections := by
  obtain ⟨cache, readAt, heq⟩ := reread_config raw limits t
  rw [heq]

@[simp] theorem connections_enabled (t : Double) :
    (limits.enabled raw t).1.connections = limits.connections := connections_config ..

@[simp] theorem connections_value (realm : Option JsString) (name : LimitName) (t : Double) :
    (limits.value raw realm name t).1.connections = limits.connections := connections_config ..

@[simp] theorem connections_takeFor (reason : LimitName) (key : JsString)
    (terms : Option (Double × Double)) (cost t : Double) :
    (limits.takeFor reason key terms cost t).1.connections = limits.connections :=
  (takeFor_fixed ..).2.1

theorem connections_produceAllowed {socketId : JsString} {realm : Option JsString} {bytes : Double} :
    (Limits.produceAllowed raw limits socketId realm bytes now).1.connections = limits.connections := by
  unfold Limits.produceAllowed messageCheck byteCheck
  dsimp only
  split_ifs <;> simp only [connections_enabled, connections_value, connections_takeFor]

theorem connections_realmCreationAllowed :
    (Limits.realmCreationAllowed raw limits ip now).1.connections = limits.connections := by
  unfold Limits.realmCreationAllowed
  dsimp only
  split_ifs <;> simp only [connections_enabled, connections_value, connections_takeFor]

theorem count_congr {limits' : Limits Double} (h : limits'.connections = limits.connections) :
    count limits' name = count limits name := by
  unfold count
  rw [h]

/-- An admission while limits are on adds one to the count of the ip, and nothing else changes a count.
There was room for it under the maximum that was read.
Kind: L -/
theorem connectionAllowed_cases (raw : Option (Config Double)) (limits : Limits Double) (ip : JsString)
    (now : ℕ → Double) :
    ((limits.enabled raw (now 0)).2 = true ∧ (connectionAllowed raw limits ip now).2.isOk = true ∧
        (∀ name, count (connectionAllowed raw limits ip now).1 name =
          count limits name + if ipName ip = name then 1 else 0) ∧
        ∀ max, valueOf ((limits.enabled raw (now 0)).1.config raw (now 1)).2 none
          .max_connections_per_ip = some max → ¬ max ≤ (count limits (ipName ip) : Double)) ∨
      (((limits.enabled raw (now 0)).2 = true → (connectionAllowed raw limits ip now).2.isOk = false) ∧
        ∀ name, count (connectionAllowed raw limits ip now).1 name = count limits name) := by
  unfold connectionAllowed count
  by_cases hon : (limits.enabled raw (now 0)).2 = true
  · dsimp only
    rw [if_neg (by simp [hon])]
    split_ifs with hfull hok
    · exact Or.inr ⟨fun _ => rfl, fun name => by rw [connections_value, connections_enabled]⟩
    · refine Or.inl ⟨hon, rfl, fun name => ?_, fun max hmax => ?_⟩
      · simp only [connections_takeFor, connections_value, connections_enabled, JsMap.get_set]
        by_cases hname : name = ipName ip
        · simp [hname]
        · simp [hname, Ne.symm hname]
      · intro hle
        apply hfull
        have hread : ((limits.enabled raw (now 0)).1.value raw none .max_connections_per_ip (now 1)).2 =
            some max := hmax
        rw [hread, connections_value, connections_enabled]
        exact decide_eq_true hle
    · refine Or.inr ⟨fun _ => Bool.eq_false_iff.mpr hok, fun name => ?_⟩
      simp only [connections_takeFor, connections_value, connections_enabled]
  · refine Or.inr ⟨fun h => absurd h hon, fun name => ?_⟩
    dsimp only
    rw [if_pos (by simpa using hon), connections_enabled]

/-- A release takes one off the count of the ip, if there is one.
Kind: L -/
theorem count_releaseConnection :
    count (limits.releaseConnection ip) name =
      count limits name - if ipName ip = name then 1 else 0 := by
  unfold releaseConnection count
  dsimp only
  by_cases hname : name = ipName ip
  · subst hname
    rw [if_pos rfl]
    split_ifs with h
    · rw [JsMap.get_delete_self]
      exact (Nat.sub_eq_zero_of_le h).symm
    · rw [JsMap.get_set_self]
      rfl
  · rw [if_neg (Ne.symm hname)]
    split_ifs with h
    · simp only [JsMap.get_delete_of_ne _ hname, Nat.sub_zero]
    · simp only [JsMap.get_set_of_ne _ hname, Nat.sub_zero]

/-- A socket that leaves the list leaves its own count.
Kind: L -/
theorem liveCounted_eraseP (name : JsString) {live : List (Socket σ)} {socket : σ} {x : Socket σ}
    (h : live.find? (fun x => x.socket = socket) = some x) :
    liveCounted (live.eraseP fun x => x.socket = socket) name +
      (if x.counted && decide (ipName x.ip = name) then 1 else 0) = liveCounted live name := by
  obtain ⟨hx, before, after, rfl, hbefore⟩ := List.find?_eq_some_iff_append.mp h
  have hskip : ∀ y ∈ before, ¬ (decide (y.socket = socket)) = true := fun y hy => by
    simpa using hbefore y hy
  unfold liveCounted
  rw [List.eraseP_append_right _ hskip,
    List.eraseP_cons_of_pos (p := fun y : Socket σ => decide (y.socket = socket)) hx,
    List.countP_append, List.countP_append, List.countP_cons]
  exact Nat.add_assoc _ _ _

/-! ### The settings that were read -/

/-- What the cache holds, if anything, is such a block.
Kind: D -/
def CacheAll (P : Option (Config Double) → Prop) (limits : Limits Double) : Prop :=
  ∀ config, limits.configCache = some config → P config

section CacheAll

variable {P : Option (Config Double) → Prop}

theorem CacheAll.config (h : CacheAll P limits) (hraw : P (effective raw)) (t : Double) :
    P (limits.config raw t).2 ∧ CacheAll P (limits.config raw t).1 := by
  rcases config_cases raw limits t with ⟨hcache, hsame⟩ | ⟨hval, hcache⟩
  · exact ⟨h _ hcache, hsame.symm ▸ h⟩
  · refine ⟨hval.symm ▸ hraw, fun config hconfig => ?_⟩
    rw [← Option.some.inj (hcache.symm.trans hconfig)]
    exact hraw

theorem CacheAll.takeFor (h : CacheAll P limits) {reason : LimitName} {key : JsString}
    {terms : Option (Double × Double)} {cost t : Double} :
    CacheAll P (limits.takeFor reason key terms cost t).1 := by
  unfold CacheAll
  rw [(takeFor_fixed ..).1]
  exact h

/-- A call leaves in the cache what it held, or the block that is configured.
Kind: L -/
theorem CacheAll.connectionAllowed (h : CacheAll P limits) (hraw : P (effective raw)) :
    CacheAll P (connectionAllowed raw limits ip now).1 := by
  have h₀ := (h.config hraw (now 0)).2
  have h₁ := (h₀.config hraw (now 1)).2
  have h₂ := (h₁.config hraw (now 2)).2
  unfold Limits.connectionAllowed
  dsimp only
  split_ifs
  · exact h₀
  · exact h₁
  · exact h₂.takeFor
  · exact h₂.takeFor

theorem CacheAll.produceAllowed (h : CacheAll P limits) (hraw : P (effective raw))
    {socketId : JsString} {realm : Option JsString} {bytes : Double} :
    CacheAll P (Limits.produceAllowed raw limits socketId realm bytes now).1 := by
  have h₀ := (h.config hraw (now 0)).2
  have hmsg : CacheAll P ((limits.enabled raw (now 0)).1.messageCheck raw socketId realm now).1 := by
    have h₁ := (h₀.config hraw (now 1)).2
    unfold messageCheck
    dsimp only
    split_ifs
    · exact h₁
    · exact (h₁.config hraw (now 2)).2.takeFor
  unfold Limits.produceAllowed byteCheck
  dsimp only
  split_ifs
  · exact h₀
  · exact (hmsg.config hraw (now 4)).2
  · exact ((hmsg.config hraw (now 4)).2.config hraw (now 5)).2.takeFor
  · exact hmsg

theorem CacheAll.realmCreationAllowed (h : CacheAll P limits) (hraw : P (effective raw)) :
    CacheAll P (Limits.realmCreationAllowed raw limits ip now).1 := by
  have h₀ := (h.config hraw (now 0)).2
  unfold Limits.realmCreationAllowed
  dsimp only
  split_ifs
  · exact h₀
  · exact (h₀.config hraw (now 1)).2.takeFor

end CacheAll

end Calls

/-! ### Runs -/

section Runs

variable {s : Sockets σ} {max : ℚ} {hmax : IsDouble max}

/-- A connection is counted and listed as counted, with room for it, or neither.
Kind: L -/
theorem connect_cases (s : Sockets σ) (socket : σ) (ip : JsString) (now : ℕ → Double) :
    ((s.limits.enabled s.raw (now 0)).2 = true ∧
        (∀ name, count (s.step (.connect socket ip now)).limits name =
            count s.limits name + (if ipName ip = name then 1 else 0) ∧
          liveCounted (s.step (.connect socket ip now)).live name =
            liveCounted s.live name + (if ipName ip = name then 1 else 0)) ∧
        ∀ max, valueOf ((s.limits.enabled s.raw (now 0)).1.config s.raw (now 1)).2 none
          .max_connections_per_ip = some max → ¬ max ≤ (count s.limits (ipName ip) : Double)) ∨
      ∀ name, count (s.step (.connect socket ip now)).limits name = count s.limits name ∧
        liveCounted (s.step (.connect socket ip now)).live name = liveCounted s.live name := by
  unfold step
  dsimp only
  rcases connectionAllowed_cases s.raw s.limits ip now with ⟨hon, hok, hcount, hroom⟩ | ⟨hno, hcount⟩
  · refine Or.inl ⟨hon, fun name => ?_, hroom⟩
    rw [if_pos hok]
    refine ⟨hcount name, ?_⟩
    simp only [liveCounted, List.countP_cons, hon, Bool.true_and, decide_eq_true_eq]
  · refine Or.inr fun name => ?_
    split_ifs with hok
    · have hoff : (s.limits.enabled s.raw (now 0)).2 = false := by
        by_contra hon
        rw [hno (Bool.eq_true_of_not_eq_false hon)] at hok
        exact Bool.noConfusion hok
      refine ⟨hcount name, ?_⟩
      simp only [liveCounted, List.countP_cons, hoff, Bool.false_and, Bool.false_eq_true, if_false,
        Nat.add_zero]
    · exact ⟨hcount name, rfl⟩

theorem step_disconnect_of_none {socket : σ} (h : s.live.find? (fun x => x.socket = socket) = none) :
    s.step (.disconnect socket) = s := by
  simp only [step, h]

theorem step_disconnect_of_some {socket : σ} {x : Socket σ}
    (h : s.live.find? (fun x => x.socket = socket) = some x) :
    s.step (.disconnect socket) =
      { s with
        limits := s.limits.releaseConnection x.ip
        live := s.live.eraseP fun x => x.socket = socket } := by
  simp only [step, h]

theorem releasable_disconnect {socket : σ} :
    s.Releasable (.disconnect socket) ↔
      ∀ x, s.live.find? (fun x => x.socket = socket) = some x → x.counted = false →
        liveCounted s.live (ipName x.ip) = 0 :=
  Iff.rfl

/-- A release keeps the accounts exactly when it does not take an uncounted socket off the count of a
counted one.
Kind: L -/
theorem accounted_disconnect (hs : s.Accounted) (socket : σ) :
    (s.step (.disconnect socket)).Accounted ↔ s.Releasable (.disconnect socket) := by
  rw [releasable_disconnect]
  cases hfind : s.live.find? fun x => x.socket = socket with
  | none =>
      rw [step_disconnect_of_none hfind]
      exact iff_of_true hs fun x hx => absurd hx (by simp)
  | some x =>
      rw [step_disconnect_of_some hfind]
      unfold Accounted
      simp only [count_releaseConnection, Option.some.injEq, forall_eq']
      constructor
      · intro h hcounted
        have hname := h (ipName x.ip)
        have hleft := liveCounted_eraseP (ipName x.ip) hfind
        rw [hs, if_pos rfl] at hname
        simp only [hcounted, Bool.false_and, Bool.false_eq_true, if_false] at hleft
        omega
      · intro h name
        have hleft := liveCounted_eraseP name hfind
        rw [hs name]
        by_cases hname : ipName x.ip = name
        · rw [if_pos hname]
          cases hcounted : x.counted with
          | true =>
              simp only [hcounted, hname, decide_true, Bool.and_self, if_true] at hleft
              omega
          | false =>
              have hzero := hname ▸ h hcounted
              simp only [hcounted, Bool.false_and, Bool.false_eq_true, if_false] at hleft
              omega
        · simp only [hname, decide_false, Bool.and_false, Bool.false_eq_true, if_false] at hleft ⊢
          omega

/-- One happening keeps the accounts exactly when it does not release an uncounted socket beside a
counted one.
Kind: L -/
theorem accounted_step (s : Sockets σ) (e : Happening σ) (hs : s.Accounted) :
    (s.step e).Accounted ↔ s.Releasable e := by
  have hother : ∀ limits : Limits Double, limits.connections = s.limits.connections →
      Accounted { s with limits := limits } :=
    fun limits h name => (count_congr h).trans (hs name)
  cases e with
  | configure raw => exact iff_of_true hs trivial
  | produceAllowed socketId realm bytes now =>
      exact iff_of_true (hother _ connections_produceAllowed) trivial
  | realmCreationAllowed ip now =>
      exact iff_of_true (hother _ connections_realmCreationAllowed) trivial
  | forgetSocket socketId => exact iff_of_true (hother _ rfl) trivial
  | disconnect socket => exact accounted_disconnect hs socket
  | connect socket ip now =>
      refine iff_of_true (fun name => ?_) trivial
      rcases connect_cases s socket ip now with ⟨-, hboth, -⟩ | hboth
      · rw [(hboth name).1, (hboth name).2, hs name]
      · rw [(hboth name).1, (hboth name).2, hs name]

/-- A count that has not reached a maximum is below it, rounded up.
Kind: L -/
theorem lt_ceil_of_not_le {k : ℕ} (h : ¬ Double.finite max hmax ≤ (k : Double)) : (k : ℤ) < ⌈max⌉ := by
  by_contra hge
  have hle : max ≤ (k : ℚ) := by
    have hceil := (Int.le_ceil max).trans (Int.cast_le.mpr (not_lt.mp hge))
    exact_mod_cast hceil
  apply h
  rw [← Double.ofRat_eq_finite hmax]
  exact Double.ofRat_mono hle

/-- The settings block that is configured and the one in the cache have this maximum, when they are on.
Kind: D -/
def OneMax (max : Double) (s : Sockets σ) : Prop :=
  HasMax max (effective s.raw) ∧ CacheAll (HasMax max) s.limits

/-- One happening keeps the cap.
Kind: L -/
theorem bounded_step (e : Happening σ) (hs : s.Accounted) (hone : s.OneMax (.finite max hmax))
    (hsteady : s.Steady e) (h : s.Bounded max) : (s.step e).Bounded max := by
  cases e with
  | configure raw => exact h
  | produceAllowed socketId realm bytes now => exact h
  | realmCreationAllowed ip now => exact h
  | forgetSocket socketId => exact h
  | connect socket ip now =>
      intro name
      rcases connect_cases s socket ip now with ⟨hon, hboth, hroom⟩ | hboth
      · rw [(hboth name).2]
        split_ifs with hname
        · -- the maximum that was read is the one there is
          have hcache := (hone.2.config hone.1 (now 0)).2
          have hread := (hcache.config hone.1 (now 1)).1 (hsteady hon)
          have hlt := lt_ceil_of_not_le (hroom _ hread)
          rw [hs, hname] at hlt
          exact_mod_cast hlt
        · exact h name
      · rw [(hboth name).2]
        exact h name
  | disconnect socket =>
      intro name
      cases hfind : s.live.find? fun x => x.socket = socket with
      | none =>
          rw [step_disconnect_of_none hfind]
          exact h name
      | some x =>
          rw [step_disconnect_of_some hfind]
          have hleft := liveCounted_eraseP name hfind
          have hname := h name
          dsimp only
          omega

/-- What a reload configures.
Kind: D -/
def Happening.reloads : Happening σ → Option (Option (Config Double))
  | .configure raw => some raw
  | _ => none

/-- A happening under which reloads have one maximum leaves it so.
Kind: L -/
theorem oneMax_step {max : Double} (h : s.OneMax max) (e : Happening σ)
    (he : ∀ raw, e.reloads = some raw → HasMax max (effective raw)) : (s.step e).OneMax max := by
  cases e with
  | configure raw => exact ⟨he raw rfl, h.2⟩
  | produceAllowed socketId realm bytes now => exact ⟨h.1, h.2.produceAllowed h.1⟩
  | realmCreationAllowed ip now => exact ⟨h.1, h.2.realmCreationAllowed h.1⟩
  | forgetSocket socketId => exact h
  | connect socket ip now =>
      unfold step
      dsimp only
      split_ifs <;> exact ⟨h.1, h.2.connectionAllowed h.1⟩
  | disconnect socket =>
      cases hfind : s.live.find? fun x => x.socket = socket with
      | none => rwa [step_disconnect_of_none hfind]
      | some x =>
          rw [step_disconnect_of_some hfind]
          refine ⟨h.1, ?_⟩
          unfold releaseConnection
          dsimp only
          split_ifs <;> exact h.2

/-- A run that keeps the accounts, under one maximum whenever limits are on, keeps the cap.
Kind: L -/
theorem bounded_run (h : s.Accounted) (hbound : s.Bounded max) (hone : s.OneMax (.finite max hmax))
    {l : List (Happening σ)} (hl : EachStep step (fun s e => Releasable s e ∧ Steady s e) s l)
    (hreloads : ∀ e ∈ l, ∀ raw, e.reloads = some raw → HasMax (.finite max hmax) (effective raw)) :
    (runFrom step s l).Bounded max := by
  induction l generalizing s with
  | nil => exact hbound
  | cons e l ih =>
      obtain ⟨⟨hreleasable, hsteady⟩, htail⟩ := hl
      exact ih ((accounted_step s e h).mpr hreleasable) (bounded_step e h hone hsteady hbound)
        (oneMax_step hone e (hreloads e List.mem_cons_self)) htail
        fun e' he' => hreloads e' (List.mem_cons_of_mem _ he')

/-- **Connection accounting.** In every state of a run the count of every ip is the number of its live
sockets that were admitted while limits were on, exactly when the run releases no socket that was
admitted while limits were off at a moment when a counted one of the same ip is live. In such a run
with one maximum, and with no admission that finds limits on and then reads that they are off, no ip
ever has more counted sockets than that.
Source: `lib/limits.js`, `Limits.prototype.connectionAllowed`, `Limits.prototype.releaseConnection`
Kind: P -/
theorem connections_accounted (raw : Option (Config Double)) (now : Double) (l : List (Happening σ)) :
    ((∀ l₁ l₂, l₁ ++ l₂ = l → (runFrom step (start raw now) l₁).Accounted) ↔
        EachStep step Releasable (start raw now) l) ∧
      (EachStep step (fun s e => Releasable s e ∧ Steady s e) (start raw now) l →
        ∀ (max : ℚ) (hmax : IsDouble max), 0 < max → HasMax (.finite max hmax) (effective raw) →
        (∀ e ∈ l, ∀ raw, e.reloads = some raw → HasMax (.finite max hmax) (effective raw)) →
        ∀ l₁ l₂, l₁ ++ l₂ = l → (runFrom step (start raw now) l₁).Bounded max) := by
  refine ⟨everyState_iff accounted_step fun _ => rfl, ?_⟩
  rintro hl max hmax hpos hraw hreloads l₁ l₂ rfl
  have hzero : Bounded max (start raw now : Sockets σ) := fun name => Int.ceil_nonneg hpos.le
  have hone : OneMax (.finite max hmax) (start raw now : Sockets σ) :=
    ⟨hraw, fun config hconfig => nomatch hconfig⟩
  exact bounded_run (fun _ => rfl) hzero hone (eachStep_append.mp hl).1
    fun e he => hreloads e (List.mem_append_left _ he)

end Runs

/-! ### Two reloads -/

/-- At most one connection of an ip.
Kind: D -/
def oneConnection : Option (Config Double) := some (oneLimit .max_connections_per_ip (1 : ℕ))

/-- A second socket connects while limits are off and goes away, and a third connects when they are back
on.
Kind: D -/
def connectBesideReload : List (Happening ℕ) :=
  [.connect 1 (js "9.9.9.9") fun _ => (1000 : ℕ), .configure none,
    .connect 2 (js "9.9.9.9") fun _ => (3000 : ℕ), .disconnect 2, .configure oneConnection,
    .connect 3 (js "9.9.9.9") fun _ => (5000 : ℕ)]

theorem hasMax_oneConnection : HasMax ((1 : ℕ) : Double) (effective oneConnection) :=
  fun _ => by decide +kernel

/-- Every reload of a list of them is to one connection, or to none at all.
Kind: L -/
theorem hasMax_reloads {e : Happening ℕ} (he : e.reloads = none ∨ e.reloads = some none ∨
    e.reloads = some oneConnection) (raw : Option (Config Double)) (hraw : e.reloads = some raw) :
    HasMax ((1 : ℕ) : Double) (effective raw) := by
  rcases he with hno | hoff | hon
  · exact absurd (hno.symm.trans hraw) (by simp)
  · rw [← Option.some.inj (hoff.symm.trans hraw)]
    exact fun h => absurd h (by decide)
  · rw [← Option.some.inj (hon.symm.trans hraw)]
    exact hasMax_oneConnection

/-- **Releasing an uncounted socket.** The release of the second socket takes the first one off the
books: at a maximum of one, the third is let in beside it.
Kind: P -/
theorem miscounted_reload :
    let s := runFrom step (start oneConnection (0 : ℕ)) connectBesideReload
    HasMax ((1 : ℕ) : Double) (effective oneConnection) ∧
      (∀ e ∈ connectBesideReload, ∀ raw, e.reloads = some raw →
        HasMax ((1 : ℕ) : Double) (effective raw)) ∧
      (effective s.raw).isSome ∧ count s.limits (js "9.9.9.9") = 1 ∧
      liveCounted s.live (js "9.9.9.9") = 2 ∧ ¬ s.Accounted ∧ ¬ s.Bounded 1 := by
  have hcount : count (runFrom step (start oneConnection (0 : ℕ)) connectBesideReload).limits
      (js "9.9.9.9") = 1 := by decide +kernel
  have hlive : liveCounted (runFrom step (start oneConnection (0 : ℕ)) connectBesideReload).live
      (js "9.9.9.9") = 2 := by decide +kernel
  refine ⟨hasMax_oneConnection, fun e he => hasMax_reloads ?_, by decide +kernel, hcount, hlive,
    fun h => ?_, fun h => ?_⟩
  · simp only [connectBesideReload, List.mem_cons, List.not_mem_nil, or_false] at he
    rcases he with rfl | rfl | rfl | rfl | rfl | rfl <;> simp [Happening.reloads]
  · have hname := h (js "9.9.9.9")
    rw [hcount, hlive] at hname
    exact absurd hname (by decide)
  · have hname := h (js "9.9.9.9")
    rw [hlive, Int.ceil_one] at hname
    exact absurd hname (by decide)

/-- A second socket connects just after limits were switched off: they are still on in the cache when
the call asks whether they are, and the cache expires before it reads the maximum.
Kind: D -/
def connectAtExpiry : List (Happening ℕ) :=
  [.connect 1 (js "9.9.9.9") fun _ => (1000 : ℕ), .configure none,
    .connect 2 (js "9.9.9.9") fun i => ((1999 + i : ℕ) : Double)]

/-- **A cache that expires within the call.** The second socket is let in beside the first one, and
counted, although the maximum was one whenever limits were on.
Kind: P -/
theorem overfull_expiredCache :
    let s := runFrom step (start oneConnection (0 : ℕ)) connectAtExpiry
    EachStep step Releasable (start oneConnection (0 : ℕ)) connectAtExpiry ∧
      (∀ e ∈ connectAtExpiry, ∀ raw, e.reloads = some raw → HasMax ((1 : ℕ) : Double) (effective raw)) ∧
      count s.limits (js "9.9.9.9") = 2 ∧ ¬ s.Bounded 1 := by
  have hlive : liveCounted (runFrom step (start oneConnection (0 : ℕ)) connectAtExpiry).live
      (js "9.9.9.9") = 2 := by decide +kernel
  refine ⟨⟨trivial, trivial, trivial, trivial⟩, fun e he => hasMax_reloads ?_, by decide +kernel,
    fun h => ?_⟩
  · simp only [connectAtExpiry, List.mem_cons, List.not_mem_nil, or_false] at he
    rcases he with rfl | rfl | rfl <;> simp [Happening.reloads]
  · have hname := h (js "9.9.9.9")
    rw [hlive, Int.ceil_one] at hname
    exact absurd hname (by decide)

end Sockets

end Limits

end TyoMq

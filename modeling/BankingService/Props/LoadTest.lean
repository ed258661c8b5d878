/-
  File:      BankingService/Props/LoadTest.lean
  Subject:   THE LOAD TEST RAISES NO FALSE ALARM.

  The check of the load test compares four balances that were read at four moments, with transfers
  under way in between. `LoadInv` says why it holds all the same: the transfers of the workers leave
  the sum of the two accounts alone, and once every worker has returned with a response for each of
  its requests none of their calls is left that could commit between the last two reads.

  * `LoadInv`, `loadInv_step` -- the invariant;
  * **`loadtest_passes`** -- if nobody else posts on the two accounts and no request is given up,
    the invariant check passes.
-/
import BankingService.Client.LoadTest
import BankingService.Proof.Cluster
import BankingService.Props.MoneyText
import BankingService.Spec.Balance
import BankingService.Uuid.Text

namespace BankingService

open Lib

/-! ## 1. Balances as the load test reads them -/

/-- A number of ten-thousandths as `NewFromString` gives it. -/
def fixed4 (n : Int) : Decimal := ⟨some n, -4⟩

theorem fixed4_add (m n : Int) : (fixed4 m).add (fixed4 n) = fixed4 (m + n) := by
  simp [fixed4, Decimal.add, Decimal.rescalePair]

theorem invariantOK_fixed4 (n : Int) : invariantOK (fixed4 n) (fixed4 n) = true := by
  simp [invariantOK, fixed4, Decimal.cmp]

/-- **A balance that is read is the balance.** -/
theorem getBalance_eq {L : Ledger} {path : GoString} {id : UUID}
    (hid : UUID.parse path = some id) {ch : AccountsChoice} {d : Decimal}
    (h : getBalance L path ch = some (some d)) : d = fixed4 (L.balance id) := by
  obtain ⟨resp, hresp, hd⟩ := Option.map_eq_some_iff.mp h
  rw [getAccountByID, parseUUID, hid] at hresp
  obtain ⟨res, hres, rfl⟩ := Option.map_eq_some_iff.mp hresp
  cases ch with
  | ok =>
      simp only [getAccount] at hres
      split at hres
      · cases hres
        cases hd
      · rename_i a ha
        cases hres
        have hread := Money.newFromString_string (Money.ofColumn a.balance)
        have hd : (Decimal.newFromString (Money.ofColumn a.balance).string).toOption = some d := hd
        rw [hread, Money.units_ofColumn] at hd
        cases hd
        rw [Ledger.balance, ha]
        rfl
  | failQuery =>
      cases hres
      cases hd
  | rows => cases hres
  | failRows => cases hres

/-! ## 2. The requests of the workers -/

/-- A transfer between the two accounts, in either direction. -/
def Between (src dst : UUID) (r : Request) : Prop :=
  ∃ amount key q, r = .transfer src dst amount key q ∨ r = .transfer dst src amount key q

theorem transferPost_handle {source dest amount : GoString} {idemKey gen : UUID} {a : Act}
    (h : (transferPost source dest amount idemKey).handle gen = .ok a) :
    ∃ s d m key q, UUID.parse source = some s ∧ UUID.parse dest = some d ∧
      a = .arrive (.transfer s d m key q) := by
  have field : ∀ {s : GoString} {name : String} {id : UUID}, parseUUIDField s name = .ok id →
      UUID.parse s = some id := by
    intro s name id h
    unfold parseUUIDField at h
    split at h
    · cases h
    · split at h
      · cases h
      · cases h
        assumption
  obtain ⟨r, hr, rfl⟩ := map_eq_ok h
  obtain ⟨key, _, h₁⟩ := bind_eq_ok hr
  obtain ⟨body, hbody, h₂⟩ := bind_eq_ok h₁
  obtain ⟨m, _, h₃⟩ := bind_eq_ok h₂
  obtain ⟨s, hs, h₄⟩ := bind_eq_ok h₃
  obtain ⟨d, hd, h₅⟩ := bind_eq_ok h₄
  cases hbody
  cases h₅
  exact ⟨s, d, m, _, _, field hs, field hd, rfl⟩

/-- The requests of the workers are between the two accounts. -/
theorem post_between {flags : LoadFlags} {src dst : UUID} (hsrc : UUID.parse flags.src = some src)
    (hdst : UUID.parse flags.dst = some dst) {i : Nat} {idemKey gen : UUID} {a : Act}
    (h : (transferPost (flags.direction i).1 (flags.direction i).2 flags.amount idemKey).handle
      gen = .ok a) : ∃ r, a = .arrive r ∧ Between src dst r := by
  obtain ⟨s, d, m, key, q, hs, hd, rfl⟩ := transferPost_handle h
  refine ⟨_, rfl, m, key, q, ?_⟩
  unfold LoadFlags.direction at hs hd
  split at hs
  · rename_i hodd
    rw [if_pos hodd] at hd
    rw [hdst] at hs
    rw [hsrc] at hd
    cases hs
    cases hd
    exact .inr rfl
  · rename_i heven
    rw [if_neg heven] at hd
    rw [hsrc] at hs
    rw [hdst] at hd
    cases hs
    cases hd
    exact .inl rfl

theorem Between.sendable {src dst : UUID} {r : Request} (h : Between src dst r) :
    r.sendable = true := by
  obtain ⟨m, key, q, rfl | rfl⟩ := h <;> rfl

/-- **A transfer between the two accounts leaves their sum alone.** -/
theorem effect_between {L L' : Ledger} {src dst : UUID} {r : Request} {st : Stamp}
    (hr : Between src dst r) (h : (Commit.request r st).apply L = some L') :
    (Commit.request r st).effect L src + (Commit.request r st).effect L dst = 0 := by
  obtain ⟨funds, debitID, creditID, amount, hp, hc, rfl⟩ := apply_request h
  have heff : ∀ id, (Commit.request r st).effect L id = delta debitID creditID amount id := by
    intro id
    rw [Commit.effect, Commit.posting?, hp]
    rfl
  rw [heff, heff]
  have hne := hc.2.1
  obtain ⟨m, key, q, rfl | rfl⟩ := hr
  · simp only [Request.posting?] at hp
    split at hp
    · cases hp
      rw [delta_debit hne, delta_credit hne]
      omega
    · cases hp
  · simp only [Request.posting?] at hp
    split at hp
    · cases hp
      rw [delta_debit hne, delta_credit hne]
      omega
    · cases hp

/-! ## 3. The invariant -/

/-- What the totals are at each point, on the tables of the moment. -/
def MoneyOk (L : Ledger) (src dst : UUID) : LoadPhase → Prop
  | .startDst x => x = fixed4 (L.balance src)
  | .running startTotal => startTotal = fixed4 (L.balance src + L.balance dst)
  | .endSrc startTotal => startTotal = fixed4 (L.balance src + L.balance dst)
  | .endDst startTotal x =>
    startTotal = fixed4 (L.balance src + L.balance dst) ∧ x = fixed4 (L.balance src)
  | .summary startTotal endTotal => ∃ n, startTotal = fixed4 n ∧ endTotal = fixed4 n
  | _ => True

/-- No worker has started, or all of them have returned. -/
def LoadPhase.resting : LoadPhase → Bool
  | .running _ => false
  | .failed => false
  | _ => true

/-- Call `c` has returned. -/
def Returned (s : St) (c : Nat) : Prop := ∃ r ret, s.calls[c]? = some (.request r (.done ret))

/-- A worker waits for call `c`. -/
def Waits (workers : List LoadWorker) (c : Nat) : Prop :=
  ∃ w i : Nat, workers[w]? = some ⟨i, .waiting c⟩

/-- **The invariant of the load test**, as far as no request was given up. -/
structure LoadInv (cfg : Config) (src dst : UUID) (t : LoadTest) : Prop where
  sys : SysInv cfg t.sys
  between : ∀ c ∈ t.posted, ∃ r p, t.sys.calls[c]? = some (.request r p) ∧ Between src dst r
  waited : "http_error" ∉ t.out → ∀ c ∈ t.posted,
    Returned t.sys c ∨ Waits t.workers c
  resting : t.phase.resting = true → ∀ c, ¬Waits t.workers c
  money : "http_error" ∉ t.out → MoneyOk t.sys.db.toLedger src dst t.phase

section Inv

variable {cfg : Config} {flags : LoadFlags} {src dst : UUID} {t : LoadTest}

/-- A returned call stays so. -/
theorem Returned.step {s s' : St} {a : Act} (hI : SysInv cfg s) (hs : step cfg s a = some s')
    {c : Nat} (h : Returned s c) : Returned s' c ∧ ∀ ch, a ≠ .call c ch := by
  obtain ⟨r, ret, hc⟩ := h
  rcases step_call hI hs hc with ⟨hc', hne⟩ | ⟨ch, p', _, _, hn⟩
  · exact ⟨⟨r, ret, hc'⟩, hne⟩
  · cases hn

/-- Between the reads at the start and at the end no call of the workers is open. -/
theorem LoadInv.returned (h : LoadInv cfg src dst t) (hout : "http_error" ∉ t.out)
    (hrest : t.phase.resting = true) {c : Nat} (hc : c ∈ t.posted) : Returned t.sys c := by
  rcases h.waited hout c hc with hret | hw
  · exact hret
  · exact absurd hw (h.resting hrest c)

theorem MoneyOk.congr {L L' : Ledger} {p : LoadPhase} (h : MoneyOk L src dst p)
    (hsrc : L'.balance src = L.balance src) (hdst : L'.balance dst = L.balance dst) :
    MoneyOk L' src dst p := by
  cases p with
  | startSrc => trivial
  | failed => trivial
  | summary => exact h
  | _ =>
      simp only [MoneyOk, hsrc, hdst]
      exact h

/-- A commit that is not of the workers moves neither balance. -/
def elsewhere (cfg : Config) (src dst : UUID) (t : LoadTest) : LoadAct → Bool
  | .sys a =>
    match commitOf cfg t.sys a with
    | some (c, k) =>
      t.posted.contains c ||
        (k.effect t.sys.db.toLedger src == 0 && k.effect t.sys.db.toLedger dst == 0)
    | none => true
  | _ => true

theorem elsewhere_commit {a : Act} (h : elsewhere cfg src dst t (.sys a) = true) {c : Nat}
    {k : Commit} (hl : commitOf cfg t.sys a = some (c, k)) (hc : c ∉ t.posted) :
    k.effect t.sys.db.toLedger src = 0 ∧ k.effect t.sys.db.toLedger dst = 0 := by
  simp only [elsewhere, hl] at h
  simpa [hc] using h

/-- **The totals through a step of the server.** -/
theorem LoadInv.moneyStep (h : LoadInv cfg src dst t) {a : Act} {s' : St}
    (hs : step cfg t.sys a = some s') (helse : elsewhere cfg src dst t (.sys a) = true)
    (hout : "http_error" ∉ t.out) : MoneyOk s'.db.toLedger src dst t.phase := by
  have hmoney := h.money hout
  cases hl : commitOf cfg t.sys a with
  | none =>
      rw [show s'.db.toLedger = t.sys.db.toLedger from step_silent h.sys hs hl]
      exact hmoney
  | some e =>
      obtain ⟨c, k⟩ := e
      have happly : k.apply t.sys.db.toLedger = some s'.db.toLedger := step_commit h.sys hs hl
      by_cases hown : c ∈ t.posted
      · obtain ⟨r, p, hc, hr⟩ := h.between c hown
        obtain ⟨ch, rfl⟩ := commitOf_index hl
        cases hrest : t.phase.resting with
        | true => exact absurd rfl ((h.returned hout hrest hown).step h.sys hs |>.2 ch)
        | false =>
            rw [commitOf_own h.sys hc] at hl
            obtain ⟨k', hk, e⟩ := Option.map_eq_some_iff.mp hl
            cases e
            obtain ⟨st, rfl⟩ : ∃ st, k = .request r st := by
              cases p with
              | inTx w tx stage =>
                  cases stage with
                  | commit =>
                      simp only [Phase.commit?] at hk
                      split at hk
                      · cases hk
                        exact ⟨_, rfl⟩
                      · cases hk
                  | _ => cases hk
              | _ => cases hk
            have hsum := effect_between hr happly
            have hmove : (Commit.request r st).move _ = _ :=
              move_of_apply h.sys.ledger hr.sendable happly
            have hsrc := move_balance h.sys.ledger hmove src
            have hdst := move_balance h.sys.ledger hmove dst
            cases hph : t.phase with
            | running startTotal =>
                rw [hph] at hmoney
                have hmoney : startTotal = fixed4 (t.sys.db.balance src + t.sys.db.balance dst) :=
                  hmoney
                simp only [MoneyOk]
                rw [hmoney, hsrc, hdst]
                exact congrArg fixed4 (by omega)
            | failed => trivial
            | _ => rw [hph] at hrest; cases hrest
      · obtain ⟨hs0, hd0⟩ := elsewhere_commit helse hl hown
        exact hmoney.congr (apply_balance_stays happly hs0) (apply_balance_stays happly hd0)

/-- A step of the server. -/
theorem LoadInv.sysStep (h : LoadInv cfg src dst t) {a : Act} {s' : St}
    (hs : step cfg t.sys a = some s') (helse : elsewhere cfg src dst t (.sys a) = true) :
    LoadInv cfg src dst { t with sys := s' } where
  sys := inv_step h.sys hs
  between c hc := by
    obtain ⟨r, p, hcall, hr⟩ := h.between c hc
    rcases step_call h.sys hs hcall with ⟨hc', _⟩ | ⟨_, p', _, hc', _⟩
    · exact ⟨r, p, hc', hr⟩
    · exact ⟨r, p', hc', hr⟩
  waited hout c hc := by
    rcases h.waited hout c hc with hret | hw
    · exact .inl (hret.step h.sys hs).1
    · exact .inr hw
  resting := h.resting
  money hout := h.moneyStep hs helse hout

/-- Worker `w` has changed; the calls others wait for are still waited for. -/
theorem Waits.set {workers : List LoadWorker} {w c : Nat} {wk : LoadWorker}
    (wk' : LoadWorker) (hw : workers[w]? = some wk) (h : Waits workers c) :
    wk.state = .waiting c ∨ Waits (workers.set w wk') c := by
  obtain ⟨w', i, hw'⟩ := h
  by_cases e : w = w'
  · subst e
    rw [hw] at hw'
    cases hw'
    exact .inl rfl
  · exact .inr ⟨w', i, (List.getElem?_set_ne e).trans hw'⟩

/-- And nothing is waited for that was not, unless the worker itself does. -/
theorem Waits.of_set {workers : List LoadWorker} {w c : Nat} {wk' : LoadWorker}
    (h : Waits (workers.set w wk') c) : wk'.state = .waiting c ∨ Waits workers c := by
  obtain ⟨w', i, hw'⟩ := h
  by_cases e : w = w'
  · subst e
    obtain ⟨hlt, _⟩ := List.getElem?_eq_some_iff.mp hw'
    rw [List.length_set] at hlt
    rw [List.getElem?_set_self hlt] at hw'
    cases hw'
    exact .inl rfl
  · exact .inr ⟨w', i, (List.getElem?_set_ne e).symm.trans hw'⟩

/-- A worker has a result: the call it waited for has returned, or it has given up. -/
theorem LoadInv.result (h : LoadInv cfg src dst t) {w : Nat} {wk : LoadWorker} (i : Nat)
    (code : String) (hw : t.workers[w]? = some wk)
    (hret : code ≠ "http_error" → ∀ c ∈ t.posted, wk.state = .waiting c → Returned t.sys c) :
    LoadInv cfg src dst (t.result w i code) := by
  have hout : "http_error" ∉ (t.result w i code).out →
      "http_error" ∉ t.out ∧ code ≠ "http_error" := by
    intro ho
    refine ⟨fun hm => ho (List.mem_append_left _ hm), fun e => ho ?_⟩
    exact List.mem_append_right _ (List.mem_singleton.mpr e.symm)
  refine ⟨h.sys, h.between, fun ho c hc => ?_, fun hrest c hwait => ?_, fun ho => ?_⟩
  · obtain ⟨ho', hcode⟩ := hout ho
    rcases h.waited ho' c hc with hr | hwait
    · exact .inl hr
    · rcases hwait.set ⟨i + 1, .idle⟩ hw with hst | hwait
      · exact .inl (hret hcode c hc hst)
      · exact .inr hwait
  · rcases Waits.of_set hwait with e | hwait
    · cases e
    · exact h.resting hrest c hwait
  · exact h.money (hout ho).1

/-- A worker has posted. -/
theorem LoadInv.post (h : LoadInv cfg src dst t) (hrun : isRunning t.phase = true) {w i : Nat}
    (hw : t.workers[w]? = some ⟨i, .idle⟩) {r : Request} (hr : Between src dst r) {s' : St}
    (hs : step cfg t.sys (.arrive r) = some s') :
    LoadInv cfg src dst
      { t with
        sys := s', workers := t.workers.set w ⟨i, .waiting t.sys.calls.length⟩,
        posted := t.posted ++ [t.sys.calls.length] } := by
  have hsys := h.sysStep hs rfl
  have hnew : s'.calls[t.sys.calls.length]? = some (.request r r.start) := by
    cases hs
    exact List.getElem?_concat_length
  have hwait : Waits (t.workers.set w ⟨i, .waiting t.sys.calls.length⟩) t.sys.calls.length :=
    ⟨w, i, List.getElem?_set_self (List.getElem?_eq_some_iff.mp hw).1⟩
  refine ⟨hsys.sys, fun c hc => ?_, fun ho c hc => ?_, fun hrest => ?_, hsys.money⟩
  · rcases List.mem_append.mp hc with hc | hc
    · exact hsys.between c hc
    · rw [List.mem_singleton.mp hc]
      exact ⟨r, _, hnew, hr⟩
  · rcases List.mem_append.mp hc with hc | hc
    · rcases hsys.waited ho c hc with hret | hold
      · exact .inl hret
      · rcases hold.set _ hw with e | hold
        · cases e
        · exact .inr hold
    · rw [List.mem_singleton.mp hc]
      exact .inr hwait
  · have hrest : t.phase.resting = true := hrest
    cases hph : t.phase with
    | running => rw [hph] at hrest; cases hrest
    | _ => rw [hph] at hrun; cases hrun

/-- `main` has read a balance. -/
theorem LoadInv.read (h : LoadInv cfg src dst t) (hsrc : UUID.parse flags.src = some src)
    (hdst : UUID.parse flags.dst = some dst) {path : GoString} {k : Decimal → LoadPhase}
    (hnext : t.phase.next flags = some (path, k)) {ch : AccountsChoice} {d : Decimal}
    (hd : getBalance t.sys.db.toLedger path ch = some (some d)) :
    LoadInv cfg src dst { t with phase := k d } := by
  have hrest : t.phase.resting = true := by
    cases hph : t.phase <;> rw [hph] at hnext <;> first | rfl | cases hnext
  refine ⟨h.sys, h.between, h.waited, fun _ => h.resting hrest, fun ho => ?_⟩
  have hmoney := h.money ho
  cases hph : t.phase with
  | startSrc =>
      rw [hph] at hnext
      cases hnext
      exact getBalance_eq hsrc hd
  | startDst x =>
      rw [hph] at hnext hmoney
      cases hnext
      have hx : x = fixed4 (t.sys.db.balance src) := hmoney
      simp only [MoneyOk]
      rw [hx, getBalance_eq hdst hd, fixed4_add]
  | endSrc startTotal =>
      rw [hph] at hnext hmoney
      cases hnext
      exact ⟨hmoney, getBalance_eq hsrc hd⟩
  | endDst startTotal x =>
      rw [hph] at hnext hmoney
      cases hnext
      obtain ⟨htotal, hx⟩ := hmoney
      refine ⟨_, htotal, ?_⟩
      rw [hx, getBalance_eq hdst hd, fixed4_add]
  | running => rw [hph] at hnext; cases hnext
  | summary => rw [hph] at hnext; cases hnext
  | failed => rw [hph] at hnext; cases hnext

/-- **Every step keeps the invariant**, if a commit of somebody else is on other accounts. -/
theorem loadInv_step (hsrc : UUID.parse flags.src = some src)
    (hdst : UUID.parse flags.dst = some dst) {a : LoadAct} {t' : LoadTest}
    (helse : elsewhere cfg src dst t a = true) (h : LoadInv cfg src dst t)
    (hs : loadStep cfg flags t a = some t') : LoadInv cfg src dst t' := by
  have failed : LoadInv cfg src dst { t with phase := .failed } :=
    ⟨h.sys, h.between, h.waited, fun e => Bool.noConfusion e, fun _ => trivial⟩
  cases a with
  | sys b =>
      obtain ⟨s', hb, rfl⟩ := Option.map_eq_some_iff.mp hs
      exact h.sysStep hb helse
  | get ch =>
      simp only [loadStep] at hs
      split at hs
      · cases hs
      · rename_i path k hnext
        obtain ⟨d, hd, rfl⟩ := Option.map_eq_some_iff.mp hs
        cases d with
        | none => exact failed
        | some d => exact h.read hsrc hdst hnext hd
  | getFails =>
      simp only [loadStep] at hs
      split at hs
      · cases hs
      · cases hs
        exact failed
  | post w idemKey gen =>
      simp only [loadStep] at hs
      split at hs
      · rename_i i hrun hw
        split at hs
        · split at hs
          · rename_i resp _
            cases hs
            exact h.result i _ hw fun _ _ _ e => by cases e
          · rename_i b hpost
            obtain ⟨s', hb, rfl⟩ := Option.map_eq_some_iff.mp hs
            obtain ⟨r, rfl, hr⟩ := post_between hsrc hdst hpost
            exact h.post hrun hw hr hb
        · cases hs
      · cases hs
  | reply w =>
      simp only [loadStep] at hs
      split at hs
      · rename_i i call hw
        obtain ⟨resp, hresp, rfl⟩ := Option.map_eq_some_iff.mp hs
        obtain ⟨c, hc, hresp⟩ := Option.bind_eq_some_iff.mp hresp
        refine h.result i _ hw fun _ c' hc' e => ?_
        cases e
        obtain ⟨r, p, hcall, _⟩ := h.between call hc'
        rw [hc] at hcall
        cases hcall
        cases p with
        | done ret => exact ⟨r, ret, hc⟩
        | _ => cases hresp
      · cases hs
  | httpError w =>
      simp only [loadStep] at hs
      split at hs
      · rename_i i _ hw
        split at hs
        · cases hs
          exact h.result i _ hw fun hne => absurd rfl hne
        · cases hs
      · rename_i i call _ hw
        cases hs
        exact h.result i _ hw fun hne => absurd rfl hne
      · cases hs
  | quit w =>
      simp only [loadStep] at hs
      split at hs
      · rename_i i _ hw
        cases hs
        refine ⟨h.sys, h.between, fun ho c hc => ?_, fun hrest c hwait => ?_, h.money⟩
        · rcases h.waited ho c hc with hret | hwait
          · exact .inl hret
          · rcases hwait.set ⟨i, .returned⟩ hw with e | hwait
            · cases e
            · exact .inr hwait
        · rcases Waits.of_set hwait with e | hwait
          · cases e
          · exact h.resting hrest c hwait
      · cases hs
  | close =>
      simp only [loadStep] at hs
      split at hs
      · rename_i startTotal hph
        split at hs
        · rename_i hall
          cases hs
          refine ⟨h.sys, h.between, h.waited, fun _ c hwait => ?_, fun ho => ?_⟩
          · obtain ⟨w, i, hw⟩ := hwait
            have := List.all_eq_true.mp hall _ (List.mem_of_getElem? hw)
            cases this
          · have := h.money ho
            rwa [hph] at this
        · cases hs
      · cases hs

end Inv

/-- **No false alarm.** Whatever the server does next to the load test, and however its requests
    fall together: if nobody else's commit moves one of the two balances, and no request was given
    up on the way, the two totals are the same and the summary says PASS. -/
theorem loadtest_passes {cfg : Config} {flags : LoadFlags} {src dst : UUID}
    (hsrc : UUID.parse flags.src = some src) (hdst : UUID.parse flags.dst = some dst)
    {now clock : Time} {acts₀ : List Act} {s₀ : St}
    (h₀ : exec cfg (St.start (Db.migrated now) clock) acts₀ = some s₀) {acts : List LoadAct}
    {t : LoadTest} (h : loadExec cfg flags (LoadTest.start flags s₀) acts = some t)
    (helse : ∀ x ∈ steps (loadStep cfg flags) (LoadTest.start flags s₀) acts,
      elsewhere cfg src dst x.1 x.2 = true)
    {startTotal endTotal : Decimal} (hend : t.phase = .summary startTotal endTotal)
    (hout : "http_error" ∉ t.out) : invariantOK startTotal endTotal = true := by
  have hstart : LoadInv cfg src dst (LoadTest.start flags s₀) := by
    refine ⟨inv_exec (inv_start cfg now clock) h₀, fun c hc => absurd hc List.not_mem_nil,
      fun _ c hc => absurd hc List.not_mem_nil, fun _ c hwait => ?_, fun _ => trivial⟩
    obtain ⟨w, i, hw⟩ := hwait
    cases List.eq_of_mem_replicate (List.mem_of_getElem? hw)
  have hinv : LoadInv cfg src dst t :=
    run_inv_steps (C := fun t a => elsewhere cfg src dst t a = true)
      (fun _ _ _ hC hi hs => loadInv_step hsrc hdst hC hi hs) hstart h helse
  have hmoney := hinv.money hout
  rw [hend] at hmoney
  obtain ⟨n, rfl, rfl⟩ := hmoney
  exact invariantOK_fixed4 n

/-- Two workers of two transfers each between Alice and Bob, and a deposit of Charlie's. -/
def loadFlags : LoadFlags where
  workers := 2
  iters := 2
  amount := bytes "1.00"
  src := bytes "00000000-0000-0000-0000-000000000002"
  dst := bytes "00000000-0000-0000-0000-000000000003"

/-- Call `c` through to its end, with the transaction id `u`. -/
def serveCall (c : Nat) (u : UUID) : List LoadAct :=
  [.sys (.call c .ok), .sys (.call c (.uuid u))] ++ List.replicate 17 (.sys (.call c .ok))

def loadRun : List LoadAct :=
  [.get .ok, .get .ok, .post 0 201#128 301#128, .post 1 202#128 302#128,
    .sys (.arrive (.deposit charlieID (Money.fromInt 25) (bytes "in-1") (bytes "req-1")))] ++
  serveCall 1 401#128 ++ [.reply 1, .post 1 203#128 303#128] ++ serveCall 2 402#128 ++
  serveCall 3 403#128 ++ serveCall 0 404#128 ++
  [.reply 0, .reply 1, .quit 1, .post 0 204#128 304#128] ++ serveCall 4 405#128 ++
  [.reply 0, .quit 0, .close, .get .ok, .get .ok]

def loadStart : LoadTest := LoadTest.start loadFlags (St.start (Db.migrated 0) 1000)

theorem loadRun_isSome : (loadExec Config.migrated loadFlags loadStart loadRun).isSome = true := by
  decide +kernel

def loadEnd : LoadTest :=
  (loadExec Config.migrated loadFlags loadStart loadRun).get loadRun_isSome

theorem loadtest_passes_charlie :
    loadEnd.phase = .summary (fixed4 200000000) (fixed4 200000000) ∧
      invariantOK (fixed4 200000000) (fixed4 200000000) = true := by
  have hend : loadEnd.phase = .summary (fixed4 200000000) (fixed4 200000000) := by decide +kernel
  have hout : "http_error" ∉ loadEnd.out := by decide +kernel
  have helse : (steps (loadStep Config.migrated loadFlags) loadStart loadRun).all
      (fun x => elsewhere Config.migrated aliceID bobID x.1 x.2) = true := by decide +kernel
  have hsrc : UUID.parse loadFlags.src = some aliceID :=
    (parse_dashed (by decide)).mpr (by decide +kernel)
  have hdst : UUID.parse loadFlags.dst = some bobID :=
    (parse_dashed (by decide)).mpr (by decide +kernel)
  have h₀ : exec Config.migrated (St.start (Db.migrated 0) 1000) [] =
      some (St.start (Db.migrated 0) 1000) := rfl
  exact ⟨hend, loadtest_passes hsrc hdst h₀ (Option.some_get loadRun_isSome).symm
    (List.all_eq_true.mp helse) hend hout⟩

end BankingService

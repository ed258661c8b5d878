/-
  File:      BankingService/Props/Responses.lean
  Subject:   WHICH RESPONSES A POST CAN GET: 201, the response of a sentinel, or a 500 for the
             statements whose refusal by the schema no check of the program comes before.

  * `Call.Refused` -- the statement a call is about to execute is refused for what the request or
    the tables hold; `next_broken` -- with a healthy database that is the only way to an error that
    is no sentinel.
  * `response_documented_iff` -- the response is 201 or that of a sentinel exactly when no such
    statement comes up in the run.
-/
import BankingService.Proof.Track
import BankingService.Http.Handlers

namespace BankingService

open Lib

/-! ## 1. Refused statements -/

/-- The statement a service call is about to execute is refused by the schema: an UPDATE when what
    the driver sends for the new balance is out of the range of its column, the header INSERT by the
    encoding of the key, an entry INSERT when what the driver sends for the amount is out of range
    or not positive. -/
def Phase.Refused (cfg : Config) (db : Db) (r : Request) : Phase → Prop
  | .inTx w _ (.updateDebit _ _) =>
      ∃ a ∈ db.accounts, a.id = w.posting.debitID ∧
        Column.driver.store (a.balance - w.posting.amount.units) = none
  | .inTx w _ (.updateCredit _) =>
      ∃ a ∈ db.accounts, a.id = w.posting.creditID ∧
        Column.driver.store (a.balance + w.posting.amount.units) = none
  | .inTx _ _ .insertHeader => pgText r.key = false
  | .inTx w _ (.insertEntries (_ :: _)) => entryTakes cfg w.posting.amount = false
  | _ => False

/-- The same for any call: the INSERT of `CreateAccount` is refused by the encoding of the name or
    by an account with the new id. -/
def Call.Refused (cfg : Config) (db : Db) : Call → Prop
  | .request r p => p.Refused cfg db r
  | .createAccount name (.insert id) => pgText name = false ∨ ∃ a ∈ db.accounts, a.id = id
  | .createAccount _ _ => False

/-- The action is the step of call `i` whose statement is refused. -/
def St.Refuses (cfg : Config) (s : St) (i : Nat) (a : Act) : Prop :=
  a = .call i .ok ∧ ∃ c, s.calls[i]? = some c ∧ c.Refused cfg s.db

/-- An error that is no sentinel. -/
def Err.isWrapped : Err → Bool
  | .sentinel _ => false
  | .wrapped _ _ => true

/-- The call is on its way out with such an error, or has returned it. -/
def Phase.broken : Phase → Bool
  | .inTx _ _ (.rollback e) => e.isWrapped
  | .audit _ (.failed e) => e.isWrapped
  | .done (.failed e) => e.isWrapped
  | _ => false

def Call.broken : Call → Bool
  | .request _ p => p.broken
  | .createAccount _ (.failed _) => true
  | .createAccount _ _ => false

theorem afterLookup_broken (r : Request) : r.afterLookup.broken = false := by
  cases r <;> rfl

theorem start_broken (r : Request) : r.start.broken = false := by
  rcases start_cases r with h | ⟨e, x, h⟩ <;> rw [h] <;> rfl

theorem afterTxErr_broken (r : Request) (w : Work) (e : Err) :
    (r.afterTxErr w e).broken = e.isWrapped := by
  unfold Request.afterTxErr
  split
  · rename_i h
    rw [h]
    rfl
  · rfl

/-- A branch that neither breaks the call nor comes from a refused statement. -/
theorem broken_of_quiet {cfg : Config} {db : Db} {r : Request} {ch : Choice} {p p' : Phase}
    (h : p'.broken = p.broken) (hr : ¬p.Refused cfg db r) :
    p'.broken = true ↔ p.broken = true ∨ (ch = .ok ∧ p.Refused cfg db r) := by
  rw [h]
  exact ⟨.inl, fun h => h.resolve_right fun h => hr h.2⟩

/-- A value the driver gets an error for is not taken. -/
theorem store_refused {m : Money} {param : Nat} {e : PgError} (h : m.toColumn param = .error e) :
    Column.driver.store m.units = none := by
  have hs := m.toColumn_error_iff.mp ⟨e, h⟩
  rwa [← Column.driver_isSome, Option.isSome_eq_false_iff, Option.isNone_iff_eq_none] at hs

theorem store_taken {m : Money} (h : m.storable = true) (hno : Column.driver.store m.units = none) :
    False := by
  rw [← Column.driver_isSome, hno] at h
  cases h

/-- **One step of a service call**: with a healthy database the schema alone breaks it. -/
theorem next_broken {cfg : Config} {db : Db} {r : Request} {ch : Choice} {p p' : Phase}
    (hI : LedgerInv db.toLedger) (hn : Next cfg db r ch p p') (hh : ch.healthy = true) :
    p'.broken = true ↔ p.broken = true ∨ (ch = .ok ∧ p.Refused cfg db r) := by
  cases hn with
  | missed => exact broken_of_quiet (afterLookup_broken r) id
  | debitRefused _ ha hid hm he =>
      refine ⟨fun _ => .inr ⟨rfl, _, ha, hid, ?_⟩, fun _ => rfl⟩
      rw [← hm]
      exact store_refused he
  | debited ha hid hm hs =>
      refine broken_of_quiet rfl fun ⟨a, ha', hid', hno⟩ => ?_
      rw [row_unique hI.accountIDs ha' ha (hid'.trans hid.symm), ← hm] at hno
      exact store_taken hs hno
  | creditRefused ha hid hm he =>
      refine ⟨fun _ => .inr ⟨rfl, _, ha, hid, ?_⟩, fun _ => rfl⟩
      rw [← hm]
      exact store_refused he
  | credited ha hid hm hs =>
      refine broken_of_quiet rfl fun ⟨a, ha', hid', hno⟩ => ?_
      rw [row_unique hI.accountIDs ha' ha (hid'.trans hid.symm), ← hm] at hno
      exact store_taken hs hno
  | entryRefused _ h => exact ⟨fun _ => .inr ⟨rfl, h⟩, fun _ => rfl⟩
  | entryIn h =>
      refine broken_of_quiet rfl fun hno => ?_
      rw [show entryTakes cfg _ = false from hno] at h
      cases h
  | keyNoText hk => exact ⟨fun _ => .inr ⟨rfl, hk⟩, fun _ => by cases r <;> rfl⟩
  | keyText hk =>
      refine broken_of_quiet rfl fun hr => ?_
      rw [show pgText r.key = false from hr] at hk
      cases hk
  | @duplicate w tx ix todo k _ _ =>
      obtain ⟨x, hx⟩ := insertErr_sentinel r k
      refine broken_of_quiet ?_ id
      rw [hx]
      rfl
  | rolledBack w tx e => exact broken_of_quiet (afterTxErr_broken r w e) id
  | audited e ret => exact broken_of_quiet (by cases ret <;> rfl) id
  | _ => first | exact broken_of_quiet rfl id | cases hh

theorem insertAccount_refused {L : Ledger} {id : UUID} {name : GoString} :
    (∃ e, insertAccount L id name = .error e) ↔
      pgText name = false ∨ ∃ a ∈ L.accounts, a.id = id := by
  have hid : (L.account? id).isSome = true ↔ ∃ a ∈ L.accounts, a.id = id := by
    rw [Ledger.account?, List.find?_isSome]
    simp
  unfold insertAccount
  cases pgText name with
  | false => exact ⟨fun _ => .inl rfl, fun _ => ⟨_, rfl⟩⟩
  | true =>
      rw [← hid]
      cases (L.account? id).isSome with
      | false =>
          constructor
          · rintro ⟨_, e⟩
            cases e
          · intro h
            simp at h
      | true => exact ⟨fun _ => .inr rfl, fun _ => ⟨_, rfl⟩⟩

/-- One step of `CreateAccount`. -/
theorem createStep_broken {cfg : Config} {db db' : Db} {name : GoString} {ch : Choice}
    {p p' : CreatePhase}
    (h : createStep db name p ch = some (db', p')) (hh : ch.healthy = true) :
    (Call.createAccount name p').broken = true ↔
      (Call.createAccount name p).broken = true ∨
        (ch = .ok ∧ (Call.createAccount name p).Refused cfg db) := by
  cases p with
  | newID =>
      cases ch with
      | uuid u =>
          cases h
          exact ⟨fun h => (by cases h), fun h => (by rcases h with h | ⟨h, _⟩ <;> cases h)⟩
      | fail => cases hh
      | _ => cases h
  | insert id =>
      cases ch with
      | ok =>
          simp only [createStep] at h
          split at h
          · rename_i e he
            cases h
            exact ⟨fun _ => .inr ⟨rfl, insertAccount_refused.mp ⟨e, he⟩⟩, fun _ => rfl⟩
          · rename_i L hL
            cases h
            refine ⟨fun h => (by cases h), ?_⟩
            rintro (h | ⟨_, h⟩)
            · cases h
            · obtain ⟨e, he⟩ := insertAccount_refused.mpr h
              rw [he] at hL
              cases hL
      | fail => cases hh
      | lostAck => cases hh
      | _ => cases h
  | done => cases ch <;> cases h
  | failed => cases ch <;> cases h

/-- **One step of any call.** -/
theorem callStep_broken {cfg : Config} {s : St} (hI : SysInv cfg s) {i : Nat} {ch : Choice}
    {c c' : Call} {db' : Db} (hc : s.calls[i]? = some c)
    (h : callStep cfg s i ch c = some (db', c')) (hh : ch.healthy = true) :
    c'.broken = true ↔ c.broken = true ∨ (ch = .ok ∧ c.Refused cfg s.db) := by
  cases c with
  | request r p =>
      obtain ⟨⟨db₁, p'⟩, hp, e⟩ := Option.map_eq_some_iff.mp h
      cases e
      exact next_broken hI.ledger (requestStep_ok hI.ledger (hI.calls i _ hc) hp).2.1 hh
  | createAccount name p =>
      obtain ⟨⟨db₁, p'⟩, hp, e⟩ := Option.map_eq_some_iff.mp h
      cases e
      exact createStep_broken hp hh

/-- **A call is broken exactly if one of its statements was refused**, as long as no fault hits
    it. -/
theorem exec_broken {cfg : Config} {s₀ s : St} (h₀ : SysInv cfg s₀) {i : Nat} {c₀ c : Call}
    (hc : s₀.calls[i]? = some c₀) (hb : c₀.broken = false) {acts : List Act}
    (h : exec cfg s₀ acts = some s) (hh : ∀ a ∈ acts, a.healthyFor i = true)
    (hc' : s.calls[i]? = some c) :
    c.broken = true ↔ ∃ e ∈ trace cfg s₀ acts, e.1.Refuses cfg i e.2 := by
  obtain ⟨c₁, hc₁, hP⟩ := exec_slot
    (P := fun as _ c => c.broken = true ↔ ∃ e ∈ trace cfg s₀ as, e.1.Refuses cfg i e.2) hc h
    ⟨fun h => (by rw [hb] at h; cases h), fun ⟨_, he, _⟩ => absurd he List.not_mem_nil⟩
    (fun as m a m' c _ hr hs hne ih => by
      rw [ih, trace, trace, steps_snoc hr hs]
      refine ⟨fun ⟨e, he, hr⟩ => ⟨e, List.mem_append_left _ he, hr⟩, fun ⟨e, he, hr⟩ => ?_⟩
      rcases List.mem_append.mp he with he | he
      · exact ⟨e, he, hr⟩
      · rw [List.mem_singleton.mp he] at hr
        exact absurd hr.1 (hne _))
    (fun as m ch m' c db' c' hpre hr hs hcm hcall ih => by
      rw [callStep_broken (inv_exec h₀ hr) hcm hcall (healthy_of_mem hh hpre), ih, trace, trace,
        steps_snoc hr hs]
      constructor
      · rintro (⟨e, he, hr⟩ | ⟨rfl, hr⟩)
        · exact ⟨e, List.mem_append_left _ he, hr⟩
        · exact ⟨(m, .call i .ok), List.mem_append_right _ (List.mem_singleton_self _), rfl, c, hcm,
            hr⟩
      · rintro ⟨e, he, hr⟩
        rcases List.mem_append.mp he with he | he
        · exact .inl ⟨e, he, hr⟩
        · rw [List.mem_singleton.mp he] at hr
          obtain ⟨ha, c₂, hc₂, hr⟩ := hr
          rw [hcm] at hc₂
          cases hc₂
          exact .inr ⟨(Act.call.inj ha).2, hr⟩)
  rw [hc'] at hc₁
  cases hc₁
  exact hP

/-! ## 2. Responses -/

/-- 201, or what a sentinel is answered with. -/
def Response.Documented (resp : Response) : Prop :=
  resp.status = 201 ∨ ∃ x, resp = mapError (.sentinel x)

theorem not_documented_internalError : ¬internalError.Documented := by
  rintro (h | ⟨x, h⟩)
  · cases h
  · cases x <;> cases h

/-- The response of a call that has returned. -/
theorem Call.response_broken {c : Call} {resp : Response} (h : c.response = some resp) :
    (c.broken = true → resp = internalError) ∧ (c.broken = false → resp.Documented) := by
  cases c with
  | request r p =>
      cases p with
      | done ret =>
          cases h
          cases ret with
          | existing => exact ⟨fun h => (by cases h), fun _ => .inl rfl⟩
          | committed => exact ⟨fun h => (by cases h), fun _ => .inl rfl⟩
          | failed e =>
              cases e with
              | sentinel x => exact ⟨fun h => (by cases h), fun _ => .inr ⟨x, rfl⟩⟩
              | wrapped => exact ⟨fun _ => rfl, fun h => (by cases h)⟩
      | _ => cases h
  | createAccount name p =>
      cases p with
      | done a => cases h; exact ⟨fun h => (by cases h), fun _ => .inl rfl⟩
      | failed e => cases h; exact ⟨fun _ => rfl, fun h => (by cases h)⟩
      | _ => cases h

/-- What a POST brings to the service is a call. -/
theorem Post.handle_cases {post : Post} {gen : UUID} {a : Act} (h : post.handle gen = .ok a) :
    (∃ r, a = .arrive r) ∨ ∃ name, a = .arriveCreate name := by
  cases post with
  | accounts body =>
      obtain ⟨name, _, rfl⟩ := map_eq_ok h
      exact .inr ⟨name, rfl⟩
  | transfers headers body =>
      obtain ⟨r, _, rfl⟩ := map_eq_ok h
      exact .inl ⟨r, rfl⟩
  | reverse headers id =>
      obtain ⟨r, _, rfl⟩ := map_eq_ok h
      exact .inl ⟨r, rfl⟩
  | deposits headers body =>
      obtain ⟨r, _, rfl⟩ := map_eq_ok h
      exact .inl ⟨r, rfl⟩

/-- **The response to a POST.** Let a POST pass its handler's checks in any reachable state, and let
    its call return at the end of a run in which no store call of it fails but for what the schema
    refuses. The response is 201 or that of one of the nine sentinels exactly when none of the
    call's statements is one of these: an UPDATE for whose new balance the driver sends a number out
    of the range of the column, the INSERT of a header whose key is no text, the INSERT of an entry
    for whose amount the driver sends a number out of range or not positive, the INSERT of an
    account whose name is no text or whose new id is taken. Otherwise it is the 500. -/
theorem response_documented_iff {cfg : Config} {now clock : Time} {before : List Act} {s₁ : St}
    (h₁ : exec cfg (St.start (Db.migrated now) clock) before = some s₁) {post : Post} {gen : UUID}
    {a : Act} (hpost : post.handle gen = .ok a) {acts : List Act} {s : St}
    (h : exec cfg s₁ (a :: acts) = some s)
    (hh : ∀ b ∈ acts, b.healthyFor s₁.calls.length = true) {c : Call}
    (hc : s.calls[s₁.calls.length]? = some c) {resp : Response} (hresp : c.response = some resp) :
    (resp.Documented ↔
      ∀ e ∈ trace cfg s₁ (a :: acts), ¬e.1.Refuses cfg s₁.calls.length e.2) ∧
    (¬resp.Documented → resp = internalError) := by
  have hI : SysInv cfg s₁ := inv_exec (inv_start cfg now clock) h₁
  -- the call that arrives is not broken, and its arrival is no statement
  obtain ⟨m, c₀, hm, hcm, hb, hfirst⟩ : ∃ m c₀, step cfg s₁ a = some m ∧
      m.calls[s₁.calls.length]? = some c₀ ∧ c₀.broken = false ∧
      ¬s₁.Refuses cfg s₁.calls.length a := by
    rcases Post.handle_cases hpost with ⟨r, rfl⟩ | ⟨name, rfl⟩
    · exact ⟨_, _, rfl, List.getElem?_concat_length, start_broken r, fun h => by cases h.1⟩
    · exact ⟨_, _, rfl, List.getElem?_concat_length, rfl, fun h => by cases h.1⟩
  have hrun : exec cfg m acts = some s := by
    rw [exec, run_cons, hm] at h
    exact h
  have hiff := exec_broken (inv_step hI hm) hcm hb hrun hh hc
  have hnone : (∀ e ∈ trace cfg s₁ (a :: acts), ¬e.1.Refuses cfg s₁.calls.length e.2) ↔
      c.broken = false := by
    rw [trace, steps_cons hm, List.forall_mem_cons, ← Bool.not_eq_true, hiff]
    refine ⟨?_, fun h => ⟨hfirst, fun e he hr => h ⟨e, he, hr⟩⟩⟩
    rintro ⟨_, h⟩ ⟨e, he, hr⟩
    exact h e he hr
  obtain ⟨hbad, hgood⟩ := Call.response_broken hresp
  rw [hnone]
  cases hcb : c.broken with
  | false => exact ⟨⟨fun _ => rfl, fun _ => hgood hcb⟩, fun hn => absurd (hgood hcb) hn⟩
  | true =>
      rw [hbad hcb]
      exact ⟨⟨fun h => absurd h not_documented_internalError, fun h => by cases h⟩, fun _ => rfl⟩

/-- A POST that is answered with 201 meets no refused statement. -/
theorem response_documented_created :
    (∀ c, sendEnd.calls[0]? = some c → c.response.map (·.status) = some 201) ∧
      ∀ e ∈ trace Config.migrated (St.start (Db.migrated 0) 1000)
        (.arrive smallTransfer :: sendRun), ¬e.1.Refuses Config.migrated 0 e.2 := by
  have h₁ : exec Config.migrated (St.start (Db.migrated 0) 1000) [] =
      some (St.start (Db.migrated 0) 1000) := rfl
  refine ⟨fun c hc => ?_, (response_documented_iff h₁ sendPost_sample sendRun_exec
    (by decide +kernel) sendEnd_call rfl).1.mp (.inl rfl)⟩
  rw [sendEnd_call] at hc
  cases hc
  rfl

/-- Alice sends Bob 2500 under the key `0xFF`, which is no UTF-8. -/
def rawKeyTransfer : Request :=
  .transfer aliceID bobID (Money.fromInt 2500) [0xFF] (bytes "req-1")

/-- A deposit of `10 ^ 16` to Alice. -/
def giantDeposit : Request :=
  .deposit aliceID (Money.fromInt 10000000000000000) (bytes "pay-1") (bytes "req-1")

/-- What a call that is alone is answered: `before` statements, its new id, `after` statements. -/
def answerAlone (arrival : Act) (before after : Nat) : Option (List (Option Response)) :=
  (exec Config.migrated (St.start (Db.migrated 0) 1000) (arrival ::
    (List.replicate before (.call 0 .ok) ++ [.call 0 (.uuid 100#128)] ++
      List.replicate after (.call 0 .ok)))).map fun s => s.calls.map Call.response

/-- **Three well-formed POSTs that are answered with 500**: a transfer under the key `0xFF`, a
    deposit of `10 ^ 16`, and an account whose name is a NUL byte. -/
theorem response_internalError :
    ((sendPost ⟨[0xFF], bytes "req-1", by decide +kernel⟩ "2500").handle 0#128 =
        .ok (.arrive rawKeyTransfer) ∧
      answerAlone (.arrive rawKeyTransfer) 1 10 = some [some internalError]) ∧
    ((Post.deposits sampleHeaders (some ⟨aliceID.text, some (bytes "1e16")⟩)).handle 0#128 =
        .ok (.arrive giantDeposit) ∧
      answerAlone (.arrive giantDeposit) 1 8 = some [some internalError]) ∧
    (Post.accounts (some ⟨[0], by decide⟩)).handle 0#128 = .ok (.arriveCreate [0]) ∧
      answerAlone (.arriveCreate [0]) 0 1 = some [some internalError] :=
  ⟨⟨by decide +kernel, by decide +kernel⟩, ⟨by decide +kernel, by decide +kernel⟩,
    by decide +kernel, by decide +kernel⟩

end BankingService

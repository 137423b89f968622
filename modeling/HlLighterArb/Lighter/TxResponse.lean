import HlLighterArb.Lib.KeyText
import HlLighterArb.Lighter.LimitOrder

/-!
# HlLighterArb.Lighter.TxResponse

How `place_ioc_order`, `place_limit_order` and `cancel_order` read the answer to a transaction: they
share `tx_response_ok`, and each returns a rejection before it waits for anything.

* `txResponseOk_codeBody`: the responses with a code and a message that pass for accepted.
* `cancelOrder`: the call, with what the feed does meanwhile.
* `ReadAsCode`: the three calls take a response for a rejection exactly when its code is not 200.
* `readAsCode_iff`: the responses of which that holds.
-/

namespace Arb

open KeyText

/-! ## Responses -/

def okCode : List Char := member "code".toList "200".toList

def txHashKey : List Char := inQuotes "tx_hash".toList

/-- A response with a code and a message. The message is the text between its quotes; in a
well-formed response a quote inside has a backslash in front. -/
def codeBody (code : Int) (message : String) : String :=
  "\x7b\"code\":" ++ toString code ++ ",\"message\":\"" ++ message ++ "\"\x7d"

/-- A rejection that `tx_response_ok` takes for one: its code does not start with 200, and neither
of the texts it looks for stands in the message with the quotes around it. -/
structure PlainlyRejected (code : Int) (message : String) : Prop where
  code : ¬ "200".toList <+: (toString code).toList
  okCode : ¬ okCode <:+: inQuotes message.toList
  txHash : ¬ txHashKey <:+: inQuotes message.toList

theorem txResponseOk_iff {body : List Char} :
    txResponseOk body = true ↔ okCode <:+: body ∨ txHashKey <:+: body := by
  rw [txResponseOk, Bool.or_eq_true, Text.contains_iff, Text.contains_iff]
  rfl

theorem codeBody_toList (code : Int) (message : String) :
    (codeBody code message).toList = [] ++ '\x7b' ::
      (member "code".toList (toString code).toList ++
        ',' :: (member "message".toList (inQuotes message.toList) ++ ['\x7d'])) := by
  simp [codeBody, member, inQuotes]

/-- A pattern without separators occurs in one of the two members. -/
theorem infix_codeBody_iff {pat : List Char} (hopen : '\x7b' ∉ pat) (hcomma : ',' ∉ pat)
    (hclose : '\x7d' ∉ pat) (hne : pat ≠ []) (code : Int) (message : String) :
    pat <:+: (codeBody code message).toList ↔
      pat <:+: member "code".toList (toString code).toList ∨
        pat <:+: member "message".toList (inQuotes message.toList) := by
  rw [codeBody_toList, infix_append_cons_iff hopen hne, infix_append_cons_iff hcomma hne,
    infix_append_cons_iff hclose hne]
  simp only [List.infix_nil, hne, or_false, false_or]

theorem unquoted_toString (code : Int) : '"' ∉ (toString code).toList :=
  fun h => absurd (Text.int_chars h) (by decide)

theorem txResponseOk_codeBody (code : Int) (message : String) :
    txResponseOk (codeBody code message).toList = true ↔ ¬ PlainlyRejected code message := by
  have hcode : okCode <:+: (codeBody code message).toList ↔
      "200".toList <+: (toString code).toList ∨ okCode <:+: inQuotes message.toList := by
    rw [@infix_codeBody_iff okCode (by decide) (by decide) (by decide) (List.cons_ne_nil _ _),
      okCode, member_infix_member_iff (by decide) (by decide) (by decide),
      member_infix_member_iff (by decide) (by decide) (by decide)]
    have hdigits : ¬ member "code".toList "200".toList <:+: (toString code).toList :=
      fun h => unquoted_toString code (h.subset (List.mem_cons_self ..))
    have hkeys : "code".toList ≠ "message".toList := by decide
    simp only [hdigits, hkeys, true_and, false_and, or_false, false_or]
  have hhash : txHashKey <:+: (codeBody code message).toList ↔
      txHashKey <:+: inQuotes message.toList := by
    rw [@infix_codeBody_iff txHashKey (by decide) (by decide) (by decide) (List.cons_ne_nil _ _),
      txHashKey, infix_member_iff (by decide) (by decide), infix_member_iff (by decide) (by decide)]
    have hdigits : ¬ inQuotes "tx_hash".toList <:+: (toString code).toList :=
      not_infix_of_unquoted (unquoted_toString code)
    have hother : "tx_hash".toList ≠ "code".toList ∧ "tx_hash".toList ≠ "message".toList := by
      decide
    simp only [hdigits, hother.1, hother.2, false_or]
  rw [txResponseOk_iff, hcode, hhash]
  constructor
  · rintro ((h | h) | h) hrejected
    · exact hrejected.code h
    · exact hrejected.okCode h
    · exact hrejected.txHash h
  · intro h
    by_contra hnot
    obtain ⟨hnot, htx⟩ := not_or.mp hnot
    obtain ⟨hcode, hok⟩ := not_or.mp hnot
    exact h ⟨hcode, hok, htx⟩

/-- The code 200 is no rejection, whatever the message. -/
theorem PlainlyRejected.code_ne {code : Int} {message : String}
    (h : PlainlyRejected code message) : code ≠ 200 := by
  rintro rfl
  exact h.code (List.prefix_refl _)

/-! ## `place_limit_order` -/

/-- What `place_limit_order` returns before it waits for the order to rest. -/
def limitAckBeforeWait (waiter dryRun : Bool) (answer : LimitAnswer) :
    Option LighterLimitOrderAck :=
  if dryRun then
    some { ok := true, restingConfirmed := true, message := "dry-run", txHash := "dry_tx",
           clientOrderIndex := answer.clientOrderIndex, orderIndex := answer.clientOrderIndex }
  else if answer.signError ≠ "" then
    some { message := answer.signError, clientOrderIndex := answer.clientOrderIndex }
  else if ¬ txResponseOk answer.response.toList then
    some { message := answer.response, txHash := answer.txHash,
           clientOrderIndex := answer.clientOrderIndex }
  else if ¬ waiter then
    some { message := "lighter maker order accepted by sendTx but no resting-order confirmer is " ++
             "configured"
           txHash := answer.txHash, clientOrderIndex := answer.clientOrderIndex }
  else none

/-- What it returns behind its wait. -/
def limitAckAfterWait (answer : LimitAnswer) : Option LighterOrderUpdate → LighterLimitOrderAck
  | some order =>
    { ok := true, restingConfirmed := true, message := answer.response, txHash := answer.txHash,
      clientOrderIndex := answer.clientOrderIndex, orderIndex := order.orderIndex }
  | none =>
    { message := "lighter maker order was accepted by sendTx but did not reach confirmed " ++
        "resting state"
      txHash := answer.txHash, clientOrderIndex := answer.clientOrderIndex }

theorem placeLimitOrder_eq (feedCfg : AccountFeedConfig) (waiter dryRun : Bool)
    (f : LighterAccountFeed) (answer : LimitAnswer) :
    placeLimitOrder feedCfg waiter dryRun f answer =
      match limitAckBeforeWait waiter dryRun answer with
      | some ack => (ack, f)
      | none =>
        let waited := f.waitForOrderResting feedCfg answer.clientOrderIndex answer.rounds
        (limitAckAfterWait answer waited.2, waited.1) := by
  unfold placeLimitOrder limitAckBeforeWait
  split_ifs
  · rfl
  · rfl
  · dsimp only
    generalize LighterAccountFeed.waitForOrderResting feedCfg answer.clientOrderIndex f
      answer.rounds = r
    obtain ⟨f', _ | order⟩ := r <;> rfl
  · rfl
  · rfl

/-! ## `cancel_order` -/

/-- What the signer, `send_signed_tx` and the account feed do during a call of `cancel_order`. -/
structure CancelAnswer where
  signError : String := ""
  txHash : String := ""
  response : String := ""
  rounds : List (List FeedEvent) := []

/-- What `cancel_order` returns before it waits for the order to leave the book. -/
def cancelAckBeforeWait (waiter : Bool) (orderIndex : Int) (dryRun : Bool)
    (answer : CancelAnswer) : Option LighterCancelAck :=
  if dryRun then some { ok := true, message := "dry-run", txHash := "dry_tx", orderIndex }
  else if orderIndex ≤ 0 then
    some { message := "lighter cancel requires a confirmed exchange order_index", orderIndex }
  else if answer.signError ≠ "" then some { message := answer.signError, orderIndex }
  else if ¬ txResponseOk answer.response.toList then
    some { message := answer.response, txHash := answer.txHash, orderIndex }
  else if ¬ waiter then
    some { message := "lighter cancel accepted by sendTx but no post-cancel confirmer is configured"
           txHash := answer.txHash, orderIndex }
  else none

/-- The acknowledgement, and the account feed after the call. `waiter` says whether a cancel waiter
was set. -/
def cancelOrder (feedCfg : AccountFeedConfig) (waiter : Bool) (f : LighterAccountFeed)
    (orderIndex : Int) (dryRun : Bool) (answer : CancelAnswer) :
    LighterCancelAck × LighterAccountFeed :=
  match cancelAckBeforeWait waiter orderIndex dryRun answer with
  | some ack => (ack, f)
  | none =>
    let waited := f.waitForCancel feedCfg orderIndex answer.rounds
    ({ ok := waited.2, message := answer.response, txHash := answer.txHash, orderIndex }, waited.1)

/-- An order acknowledged as cancelled was so in the table when the wait last looked. -/
theorem cancelOrder_seen {feedCfg : AccountFeedConfig} {waiter : Bool} {f : LighterAccountFeed}
    {orderIndex : Int} {answer : CancelAnswer}
    (h : (cancelOrder feedCfg waiter f orderIndex false answer).1.ok = true) :
    (cancelOrder feedCfg waiter f orderIndex false answer).2.cancelledOrder orderIndex = true := by
  unfold cancelOrder at h ⊢
  cases hearly : cancelAckBeforeWait waiter orderIndex false answer with
  | none =>
    rw [hearly] at h
    exact LighterAccountFeed.waitForCancel_eq_true h
  | some ack =>
    have hrefused : ack.ok = false := by
      simp only [cancelAckBeforeWait, Bool.false_eq_true, if_false] at hearly
      split_ifs at hearly <;> cases hearly <;> rfl
    rw [hearly] at h
    exact absurd h (Bool.eq_false_iff.mp hrefused)

/-! ## `place_ioc_order` -/

namespace LighterTrading

/-- The call is behind the test of its response. -/
def Tested (call : Nat) (s : LighterTrading) : Prop :=
  call < s.calls ∨ call = s.calls ∧ ∀ request before, s.phase ≠ .sized request before

section Tested

variable {cfg : PositionFeedConfig} {call : Nat} {s s' : LighterTrading} {obs : List IocObs}

theorem confirmAck_ok (request : LighterIocRequest) (before : LighterPositionSnapshot)
    (message txHash : String) (attempts : Nat) (after : Option LighterPositionSnapshot) :
    (confirmAck request before message txHash attempts after).ok = true := by
  cases after <;> rfl

/-- A move does not take the call back, and returns it only if it is the next one. -/
theorem Move.tested (m : Move s s' obs) (h : Tested call s) :
    Tested call s' ∧ ∀ ack, .returned call ack ∉ obs := by
  have hlater : ∀ request before, s.phase = .sized request before → call < s.calls :=
    fun request before hsized => h.resolve_right fun hat => hat.2 request before hsized
  have hle : call ≤ s.calls := h.elim Nat.le_of_lt fun hat => hat.1.le
  cases m with
  | fed feed sizes => exact ⟨h, by simp⟩
  | dryRun request idle => exact ⟨.inl (Nat.lt_succ_of_le hle), by simp; omega⟩
  | began request idle => exact ⟨.inl (Nat.lt_succ_of_le hle), by simp⟩
  | refused request before ack sized unconfirmed =>
    have hlt := hlater request before sized
    exact ⟨.inl hlt, by simp [hlt.ne]⟩
  | dropped request before ack sized unconfirmed =>
    have hlt := hlater request before sized
    exact ⟨.inl hlt, by simp [hlt.ne]⟩
  | threw request before sized => exact ⟨.inl (hlater request before sized), by simp⟩
  | accepted request before message txHash sized =>
    exact ⟨.inl (hlater request before sized), by simp⟩
  | executed call' after mem => exact ⟨h, by simp⟩

/-- Behind the test a call returns ok, if it returns. -/
theorem tested_step (cfg : PositionFeedConfig) (e : IocEvent) (h : Tested call s) :
    Tested call (s.step cfg e).1 ∧
      ∀ ack, .returned call ack ∈ (s.step cfg e).2 → ack.ok = true := by
  rcases step_cases cfg s e with ⟨-, m⟩ | ⟨before, after, a, -⟩
  · obtain ⟨hnext, hnone⟩ := m.tested h
    exact ⟨hnext, fun ack hack => absurd hack (hnone ack)⟩
  · obtain ⟨request, message, txHash, attempts, -, hnext⟩ := a.waiting
    rw [hnext]
    refine ⟨h.imp_right fun hat => ⟨hat.1, fun _ _ => IocPhase.noConfusion⟩, fun ack hack => ?_⟩
    obtain ⟨-, rfl⟩ : call = s.calls ∧
        ack = confirmAck request before message txHash attempts after := by
      simpa [returnAck] using hack
    exact confirmAck_ok request before message txHash attempts after

theorem tested_run (cfg : PositionFeedConfig) (es : List IocEvent) (h : Tested call s) :
    ∀ ack, .returned call ack ∈ (machine cfg).obs s es → ack.ok = true := by
  induction es generalizing s with
  | nil => simp
  | cons e es ih =>
    obtain ⟨hnext, hack⟩ := tested_step cfg e h
    intro ack hmem
    rcases List.mem_append.mp hmem with hmem | hmem
    · exact hack ack hmem
    · exact ih hnext ack hmem

/-- A call that gets a response returns not ok, now or later, exactly when the test refuses it. -/
theorem returns_refused_iff (cfg : PositionFeedConfig) {request : LighterIocRequest}
    {before : LighterPositionSnapshot} (sized : s.phase = .sized request before)
    (txHash body : String) (es : List IocEvent) :
    (∃ ack, .returned s.calls ack ∈
        (machine cfg).obs s (.send { txHash, response := some body } :: es) ∧ ack.ok = false) ↔
      txResponseOk body.toList = false := by
  cases hok : txResponseOk body.toList with
  | false =>
    have hsend : (s.send { txHash, response := some body }).2 =
        [.sent s.calls, .returned s.calls { message := body, txHash }] := by
      simp [send, sized, hok]
    refine iff_of_true ⟨{ message := body, txHash }, ?_, rfl⟩ rfl
    rw [EventMachine.obs_cons]
    exact List.mem_append_left _ (hsend ▸ by simp)
  | true =>
    -- the call waits, or it threw
    have hsend : Tested s.calls (s.send { txHash, response := some body }).1 ∧
        ∀ ack, .returned s.calls ack ∉ (s.send { txHash, response := some body }).2 := by
      simp only [send, sized, hok, ne_eq, not_true_eq_false, if_false]
      split <;> exact ⟨.inr ⟨rfl, fun _ _ => IocPhase.noConfusion⟩, by simp⟩
    refine iff_of_false ?_ (by decide)
    rintro ⟨ack, hmem, hack⟩
    rcases List.mem_append.mp hmem with hmem | hmem
    · exact hsend.2 ack hmem
    · exact absurd (tested_run cfg es hsend.1 ack hmem) (Bool.eq_false_iff.mp hack)

end Tested

end LighterTrading

/-! ## The code -/

/-- The three calls take the response for a rejection exactly when its code is not 200:
`place_ioc_order` returns not ok, and the other two return before they wait. -/
structure ReadAsCode (orderWaiter cancelWaiter : Bool) (code : Int) (body : String) : Prop where
  ioc : ∀ (cfg : PositionFeedConfig) (s : LighterTrading) (request : LighterIocRequest)
    (before : LighterPositionSnapshot) (txHash : String) (es : List IocEvent),
    s.phase = .sized request before →
      ((∃ ack, .returned s.calls ack ∈ (LighterTrading.machine cfg).obs s
          (.send { txHash, response := some body } :: es) ∧ ack.ok = false) ↔ code ≠ 200)
  limit : ∀ answer : LimitAnswer, answer.signError = "" → answer.response = body →
    ((limitAckBeforeWait orderWaiter false answer).isSome = true ↔ code ≠ 200)
  cancel : ∀ (orderIndex : Int) (answer : CancelAnswer), 0 < orderIndex →
    answer.signError = "" → answer.response = body →
      ((cancelAckBeforeWait cancelWaiter orderIndex false answer).isSome = true ↔ code ≠ 200)

theorem limitAckBeforeWait_isSome {waiter : Bool} {answer : LimitAnswer}
    (hsigned : answer.signError = "") :
    (limitAckBeforeWait waiter false answer).isSome = true ↔
      txResponseOk answer.response.toList = false ∨ waiter = false := by
  cases hok : txResponseOk answer.response.toList <;> cases waiter <;>
    simp [limitAckBeforeWait, hsigned, hok]

theorem cancelAckBeforeWait_isSome {waiter : Bool} {orderIndex : Int} {answer : CancelAnswer}
    (hindex : 0 < orderIndex) (hsigned : answer.signError = "") :
    (cancelAckBeforeWait waiter orderIndex false answer).isSome = true ↔
      txResponseOk answer.response.toList = false ∨ waiter = false := by
  cases hok : txResponseOk answer.response.toList <;> cases waiter <;>
    simp [cancelAckBeforeWait, hsigned, hok, not_le.mpr hindex]

/-- The three calls read the code exactly when the code is 200 and both waiters were set, or the
response is a plain rejection. -/
theorem readAsCode_iff (orderWaiter cancelWaiter : Bool) (code : Int) (message : String) :
    ReadAsCode orderWaiter cancelWaiter code (codeBody code message) ↔
      code = 200 ∧ orderWaiter = true ∧ cancelWaiter = true ∨ PlainlyRejected code message := by
  have hrefused : txResponseOk (codeBody code message).toList = false ↔
      PlainlyRejected code message := by
    rw [← Bool.not_eq_true, txResponseOk_codeBody, not_not]
  constructor
  · intro h
    have hioc := h.ioc {} { phase := .sized { size := 0, dryRun := false } {} } _ _ "" [] rfl
    have hlimit := h.limit { clientOrderIndex := 0, response := codeBody code message } rfl rfl
    have hcancel := h.cancel 1 { response := codeBody code message } one_pos rfl rfl
    rw [LighterTrading.returns_refused_iff {} rfl] at hioc
    rw [limitAckBeforeWait_isSome rfl] at hlimit
    rw [cancelAckBeforeWait_isSome one_pos rfl] at hcancel
    by_cases hcode : code = 200
    · have hlimit := mt hlimit.mp (not_not.mpr hcode)
      have hcancel := mt hcancel.mp (not_not.mpr hcode)
      exact .inl ⟨hcode, by simpa using (not_or.mp hlimit).2, by simpa using (not_or.mp hcancel).2⟩
    · exact .inr (hrefused.mp (hioc.mpr hcode))
  · intro h
    have hcode : txResponseOk (codeBody code message).toList = false ↔ code ≠ 200 := by
      rw [hrefused]
      refine ⟨PlainlyRejected.code_ne, fun hne => h.resolve_left fun hwaits => hne hwaits.1⟩
    have hwaiter {waiter : Bool} (hset : code = 200 → waiter = true) :
        waiter = false → code ≠ 200 := by
      rintro rfl heq
      exact Bool.false_ne_true (hset heq)
    have hset : code = 200 → orderWaiter = true ∧ cancelWaiter = true := fun heq =>
      (h.resolve_right fun hplain => hplain.code_ne heq).2
    refine ⟨fun cfg s request before txHash es sized => ?_, fun answer hsigned hbody => ?_,
      fun orderIndex answer hindex hsigned hbody => ?_⟩
    · rw [LighterTrading.returns_refused_iff cfg sized, hcode]
    · rw [limitAckBeforeWait_isSome hsigned, hbody, hcode]
      exact or_iff_left_of_imp (hwaiter fun heq => (hset heq).1)
    · rw [cancelAckBeforeWait_isSome hindex hsigned, hbody, hcode]
      exact or_iff_left_of_imp (hwaiter fun heq => (hset heq).2)

/-- A code that starts with 200 passes for it. -/
theorem rejected_code_passes :
    ¬ ∀ (code : Int) (message : String), ¬ okCode <:+: message.toList →
      ¬ txHashKey <:+: message.toList → ReadAsCode true true code (codeBody code message) := by
  intro h
  have hread := (h 20001 "invalid param" (by decide) (by decide)).ioc {}
    { phase := .sized { size := 0, dryRun := false } {} } _ _ "" [] rfl
  rw [LighterTrading.returns_refused_iff {} rfl] at hread
  have hok : txResponseOk (codeBody 20001 "invalid param").toList = true := by decide +kernel
  rw [hok] at hread
  exact absurd (hread.mpr (by decide)) (by decide)

end Arb

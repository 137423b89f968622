import HlLighterArb.Live.Loop
import HlLighterArb.Maker.Fills

/-!
# HlLighterArb.Live.Sighted

The kill switch keeps the loop from trading while fills may be missed. It holds one reason: an
activation is skipped while the switch is on for another cause, and a reset for one cause forgets
the others.

* `Sighted`: every engine tick has the feed subscribed at its iteration's reading, quotes at most
  5000 ms old, and no loss before the reading left unreconciled.
* `Noticed`: this step does not let a loss of the feed go without the kill switch on for it.
* `sighted_always`: runs whose steps are all noticed are sighted.
-/

namespace Arb

/-! ## What the loop knows -/

/-- The last reading of the feed, whether a loss is unreconciled, and whether one was at the
reading. -/
structure Watch where
  subscribed : Bool := false
  missed : Bool := false
  owed : Bool := false

def Watch.see (w : Watch) : LoopObs → Watch
  | .read subscribed => { w with subscribed, owed := w.missed }
  | .lost => { w with missed := true }
  | .reconciled => { w with missed := false, owed := false }
  | _ => w

def watch (l : List LoopObs) : Watch := l.foldl Watch.see {}

/-- A tick of the engine sees the venues, and owes no reconciliation. -/
def Watch.Sees (w : Watch) : LoopObs → Prop
  | .traded lighterAgeMs hlAgeMs =>
    w.subscribed = true ∧ lighterAgeMs ≤ 5000 ∧ hlAgeMs ≤ 5000 ∧ w.owed = false
  | _ => True

def Sighted (l : List LoopObs) : Prop := ∀ pre o, pre ++ [o] <+: l → (watch pre).Sees o

theorem watch_append (l l' : List LoopObs) : watch (l ++ l') = l'.foldl Watch.see (watch l) := by
  simp [watch]

theorem sighted_snoc {l : List LoopObs} {o : LoopObs} :
    Sighted (l ++ [o]) ↔ Sighted l ∧ (watch l).Sees o := by
  constructor
  · exact fun h => ⟨fun pre x hp => h pre x (hp.trans (List.prefix_append _ _)),
      h l o (List.prefix_refl _)⟩
  · rintro ⟨h, ho⟩ pre x hp
    rcases EventMachine.prefix_snoc_cases hp with hp | hp
    · exact h pre x hp
    · obtain ⟨rfl, hx⟩ := List.append_inj' hp rfl
      cases hx
      exact ho

/-- The observation is no reading, loss, reconciliation or tick. -/
def LoopObs.isPlain : LoopObs → Bool
  | .engine _ => true
  | .directCancel _ _ => true
  | _ => false

theorem watch_append_plain {l l' : List LoopObs} (h : ∀ o ∈ l', o.isPlain = true) :
    watch (l ++ l') = watch l := by
  induction l' generalizing l with
  | nil => simp
  | cons o l' ih =>
    have ho : (watch l).see o = watch l := by
      have hplain := h o (List.mem_cons_self ..)
      cases o <;> first | rfl | cases hplain
    have hrest := ih (l := l ++ [o]) fun x hx => h x (List.mem_cons_of_mem _ hx)
    rw [List.append_assoc, List.singleton_append] at hrest
    rw [hrest, watch_append]
    exact ho

/-- Observations without a tick of the engine are seen by any watch. -/
theorem sighted_append {l l' : List LoopObs} (h : ∀ o ∈ l', ∀ w : Watch, w.Sees o)
    (hl : Sighted l) : Sighted (l ++ l') := by
  induction l' generalizing l with
  | nil => simpa using hl
  | cons o l' ih =>
    have hrest := ih (l := l ++ [o]) (fun x hx => h x (List.mem_cons_of_mem _ hx))
      (sighted_snoc.mpr ⟨hl, h o (List.mem_cons_self ..) _⟩)
    rwa [List.append_assoc, List.singleton_append] at hrest

theorem sees_of_plain {o : LoopObs} (h : o.isPlain = true) (w : Watch) : w.Sees o := by
  cases o <;> trivial

/-! ## The invariant -/

def LoopTick.Fresh (t : LoopTick) : Prop :=
  t.snap.lighter.quoteAgeMs ≤ 5000 ∧ t.snap.hl.quoteAgeMs ≤ 5000

/-- The iteration may trade, as far as the feed goes. -/
def Watch.Clear (w : Watch) : Prop := w.subscribed = true ∧ w.owed = false

namespace LiveLoop

/-- What holds at a point of the iteration. -/
def AtPc (w : Watch) (s : LiveLoop) : LoopPc → Prop
  | .drainFills | .drainTrades | .readFeed _ | .latchFeed _ | .infinite _ => True
  | .feedCheck t => t.fillsSubscribed = w.subscribed ∧
      (w.subscribed = true → w.owed = true → s.feedKilled = true)
  | .reconcile _ => w.subscribed = true ∧ s.feedKilled = true
  | .resetFeed _ => w.Clear ∧ s.feedKilled = true ∧
      (w.missed = true → s.feed.disconnecting ≠ none)
  | .staleCheck _ => w.Clear ∨ s.feedKilled = true
  | .latchStale _ => s.risk.killSwitch = false
  | .resetStale t => w.Clear ∧ t.Fresh ∧ s.risk.killSwitch = true ∧ s.feedKilled = false
  | .killCheck t => t.Fresh ∧ (w.Clear ∨ s.feedKilled = true)
  | .marketData t => t.Fresh ∧ w.Clear

/-- An unreconciled loss has its callback still to come, or the kill switch on for it. -/
structure Watched (l : List LoopObs) (s : LiveLoop) : Prop where
  down : s.feed.disconnecting ≠ none → s.feed.connected = false
  missed : (watch l).missed = true → s.feed.disconnecting ≠ none ∨ s.feedKilled = true
  atPc : AtPc (watch l) s s.pc

/-- A callback now finds the kill switch off or on for the feed, and does not come in just before
stale quotes are latched or the switch is reset for the feed. -/
def callbackHeeded (s : LiveLoop) : Bool :=
  match s.pc with
  | .latchStale _ | .resetFeed _ => false
  | _ => !s.risk.killSwitch || s.feedKilled

/-- A reading that the feed is not subscribed finds the kill switch off or on for the feed. -/
def readingHeeded (s : LiveLoop) : Bool :=
  match s.pc with
  | .feedCheck t => t.fillsSubscribed || !s.risk.killSwitch || s.feedKilled
  | _ => true

/-- The step lets no loss of the feed go without the kill switch on for it. -/
def Noticed (s : LiveLoop) : LoopEvent → Prop
  | .callback _ => s.feed.disconnecting ≠ none → s.callbackHeeded = true
  | .next _ _ => s.readingHeeded = true
  | _ => True

instance (s : LiveLoop) : (e : LoopEvent) → Decidable (s.Noticed e)
  | .callback _ =>
    inferInstanceAs (Decidable (s.feed.disconnecting ≠ none → s.callbackHeeded = true))
  | .next _ _ => inferInstanceAs (Decidable (s.readingHeeded = true))
  | .fill .. | .trade .. | .fillsDrained | .snapshot .. | .readError _ | .handshake
  | .subscriptionResponse => .isTrue trivial

section Steps

variable {cfg : EngineConfig} {l obs : List LoopObs} {s s' : LiveLoop} {w w' : Watch}

theorem feedKilled_iff :
    s.feedKilled = true ↔ s.risk.killSwitch = true ∧ isFeedReason s.risk.killSwitchReason = true := by
  simp [feedKilled]

theorem feedKilled_congr (h : s'.risk = s.risk) : s'.feedKilled = s.feedKilled := by
  rw [feedKilled, feedKilled, h]

theorem killSwitch_of_feedKilled (h : s.feedKilled = true) : s.risk.killSwitch = true :=
  (feedKilled_iff.mp h).1

/-- A point keeps what holds there while the risk guard and the reading stay. -/
theorem AtPc.frame {pc : LoopPc} (h : AtPc w s pc) (risk : s'.risk = s.risk)
    (subscribed : w'.subscribed = w.subscribed) (owed : w'.owed = w.owed)
    (missed : ∀ t, pc = .resetFeed t → (w.missed = true → s.feed.disconnecting ≠ none) →
      w'.missed = true → s'.feed.disconnecting ≠ none) : AtPc w' s' pc := by
  have hkilled := feedKilled_congr risk
  have hclear : w'.Clear ↔ w.Clear := by rw [Watch.Clear, subscribed, owed, ← Watch.Clear]
  cases pc with
  | drainFills | drainTrades | readFeed | latchFeed | infinite => trivial
  | feedCheck t =>
    rw [AtPc, subscribed, owed, hkilled]
    exact h
  | reconcile t =>
    rw [AtPc, subscribed, hkilled]
    exact h
  | resetFeed t =>
    rw [AtPc, hclear, hkilled]
    exact ⟨h.1, h.2.1, missed t rfl h.2.2⟩
  | staleCheck t =>
    rw [AtPc, hclear, hkilled]
    exact h
  | latchStale t =>
    rw [AtPc, risk]
    exact h
  | resetStale t =>
    rw [AtPc, hclear, hkilled, risk]
    exact h
  | killCheck t =>
    rw [AtPc, hclear, hkilled]
    exact h
  | marketData t =>
    rw [AtPc, hclear]
    exact h

/-- A step that leaves the risk guard, the feed and the point alone. -/
theorem Watched.still (h : Watched l s) (plain : ∀ o ∈ obs, o.isPlain = true)
    (risk : s'.risk = s.risk) (feed : s'.feed = s.feed) (pc : s'.pc = s.pc) :
    Watched (l ++ obs) s' := by
  refine ⟨?_, ?_, ?_⟩
  · rw [feed]
    exact h.down
  · rw [watch_append_plain plain, feed, feedKilled_congr risk]
    exact h.missed
  · rw [watch_append_plain plain, pc]
    refine h.atPc.frame risk rfl rfl fun _ _ => ?_
    rw [feed]
    exact id

/-- A step of the main thread to a point where it can stand. -/
theorem Watched.goto (h : Watched l s) (pc : LoopPc) (hpc : AtPc (watch l) s pc) :
    Watched (l ++ []) { s with pc } := by
  rw [List.append_nil]
  exact ⟨h.down, h.missed, hpc.frame rfl rfl rfl fun _ _ => id⟩

theorem call_plain (s : LiveLoop) (e : MakerEvent) : ∀ o ∈ (s.call cfg e).2, o.isPlain = true := by
  simp [call, LoopObs.isPlain]

theorem cancelActive_plain (s : LiveLoop) (venues : Venues) :
    ∀ o ∈ s.cancelActive cfg venues, o.isPlain = true := by
  unfold cancelActive
  split <;> simp [LoopObs.isPlain]

/-- What the condition says about a callback that runs. -/
theorem callbackHeeded_iff : s.callbackHeeded = true ↔ (∀ t, s.pc ≠ .latchStale t) ∧
    (∀ t, s.pc ≠ .resetFeed t) ∧ (s.risk.killSwitch = false ∨ s.feedKilled = true) := by
  unfold callbackHeeded
  split <;> simp_all

theorem callback_watched (h : Watched l s) (venues : Venues)
    (hnoticed : s.Noticed (.callback venues)) :
    Watched (l ++ (s.callback cfg venues).2) (s.callback cfg venues).1 := by
  unfold callback
  split
  · rw [List.append_nil]
    exact h
  · next reason hreason =>
    obtain ⟨hstale, hreset, hswitch⟩ :=
      callbackHeeded_iff.mp (hnoticed (by rw [hreason]; exact Option.some_ne_none _))
    split
    · next hoff =>
      have hkilled : feedKilled { s with
          feed := s.feed.onDisconnect
          risk := s.risk.activateKillSwitch ("fill feed disconnected: " ++ reason) } = true :=
        feedKilled_iff.mpr ⟨rfl, isFeedReason_disconnected reason⟩
      refine ⟨fun hne => absurd rfl hne, fun _ => .inr hkilled, ?_⟩
      rw [watch_append_plain (cancelActive_plain s venues)]
      have hpc := h.atPc
      cases hs : s.pc with
      | drainFills | drainTrades | readFeed | latchFeed | infinite => trivial
      | feedCheck t =>
        rw [hs] at hpc
        exact ⟨hpc.1, fun _ _ => hkilled⟩
      | reconcile t =>
        rw [hs] at hpc
        exact ⟨hpc.1, hkilled⟩
      | resetFeed t => exact absurd hs (hreset t)
      | staleCheck t => exact .inr hkilled
      | latchStale t => exact absurd hs (hstale t)
      | resetStale t =>
        rw [hs] at hpc
        exact absurd hpc.2.2.1 hoff
      | killCheck t =>
        rw [hs] at hpc
        exact ⟨hpc.1, .inr hkilled⟩
      | marketData t =>
        rw [hs] at hpc
        exact hpc
    · next hon =>
      rw [List.append_nil]
      have hkilled : s.feedKilled = true := by
        rcases hswitch with hoff | hkilled
        · exact absurd (by rw [hoff]; exact Bool.false_ne_true) hon
        · exact hkilled
      exact ⟨fun hne => absurd rfl hne, fun _ => .inr hkilled,
        h.atPc.frame rfl rfl rfl fun t ht => absurd ht (hreset t)⟩

/-- While nothing latches or resets it, a loss shows at the reading of the feed. -/
theorem Watched.feedKilled_of_subscribed (h : Watched l s) (hsub : s.feed.isSubscribed = true)
    (hmissed : (watch l).missed = true) : s.feedKilled = true := by
  refine (h.missed hmissed).resolve_left fun hdisc => ?_
  rw [HlFillFeed.isSubscribed, h.down hdisc] at hsub
  cases hsub

theorem next_watched (h : Watched l s) (venues : Venues) (response : Option HttpResponse)
    (hnoticed : s.Noticed (.next venues response)) :
    Watched (l ++ (s.next cfg venues response).2) (s.next cfg venues response).1 := by
  have hat := h.atPc
  unfold next
  split
  · rw [List.append_nil]
    exact h
  · rw [List.append_nil]
    exact h
  · rw [List.append_nil]
    exact h
  · next t hpc =>
    have hwatch : watch (l ++ [.read s.feed.isSubscribed]) =
        { watch l with subscribed := s.feed.isSubscribed, owed := (watch l).missed } :=
      watch_append l _
    refine ⟨h.down, ?_, ?_⟩
    · rw [hwatch]
      exact h.missed
    · rw [hwatch]
      exact ⟨rfl, fun hsub howed => h.feedKilled_of_subscribed hsub howed⟩
  · next t hpc =>
    rw [hpc] at hat
    split
    · exact h.goto _ trivial
    · next hlatch =>
      split
      · next hrec => exact h.goto _ ⟨hat.1.symm.trans hrec.1, hrec.2⟩
      · next hrec =>
        refine h.goto _ ?_
        by_cases hsub : t.fillsSubscribed = true
        · refine .inl ⟨hat.1.symm.trans hsub, Bool.eq_false_iff.mpr fun howed => ?_⟩
          exact hrec ⟨hsub, hat.2 (hat.1.symm.trans hsub) howed⟩
        · refine .inr ?_
          have hheeded : (t.fillsSubscribed || !s.risk.killSwitch || s.feedKilled) = true := by
            simpa [Noticed, readingHeeded, hpc] using hnoticed
          have hon : s.risk.killSwitch = true := by
            by_contra hoff
            exact hlatch ⟨hsub, hoff⟩
          simpa [hsub, hon] using hheeded
  · next t hpc =>
    have hkilled : feedKilled { s with
        risk := s.risk.activateKillSwitch "fill feed not subscribed", pc := .staleCheck t } =
          true := feedKilled_iff.mpr ⟨rfl, rfl⟩
    exact ⟨h.down, fun _ => .inr hkilled, .inr hkilled⟩
  · next t hpc =>
    rw [hpc] at hat
    have hwatch : watch (l ++ [.reconciled]) =
        { watch l with missed := false, owed := false } := watch_append l _
    have hnone : (watch (l ++ [.reconciled])).missed ≠ true := by
      rw [hwatch]
      exact Bool.false_ne_true
    have hreset : AtPc (watch (l ++ [.reconciled])) s (.resetFeed t) :=
      ⟨by rw [hwatch]; exact ⟨hat.1, rfl⟩, hat.2, fun hm => absurd hm hnone⟩
    split
    · exact ⟨h.down, fun hm => absurd hm hnone, hreset⟩
    · exact ⟨h.down, fun hm => absurd hm hnone, trivial⟩
    · exact ⟨h.down, fun hm => absurd hm hnone, hreset⟩
  · next t hpc =>
    rw [hpc] at hat
    rw [List.append_nil]
    exact ⟨h.down, fun hm => .inl (hat.2.2 hm), .inl hat.1⟩
  · next t hpc =>
    rw [hpc] at hat
    split
    · split
      · next hoff => exact h.goto _ (Bool.eq_false_iff.mpr hoff)
      · exact h.goto _ trivial
    · next hfresh =>
      obtain ⟨hlighter, hhl⟩ := not_or.mp hfresh
      have hfresh : t.Fresh := ⟨not_lt.mp hlighter, not_lt.mp hhl⟩
      split
      · next hstale =>
        have hkilled : s.feedKilled = false := by
          rw [feedKilled, hstale.2, Bool.and_eq_false_iff]
          exact .inr (by decide +kernel)
        refine h.goto _ ⟨hat.resolve_right ?_, hfresh, hstale.1, hkilled⟩
        rw [hkilled]
        exact Bool.false_ne_true
      · exact h.goto _ ⟨hfresh, hat⟩
  · next t hpc =>
    rw [hpc] at hat
    rw [List.append_nil]
    refine ⟨h.down, fun hm => .inl ((h.missed hm).resolve_right fun hkilled => ?_), trivial⟩
    exact absurd ((killSwitch_of_feedKilled hkilled).symm.trans hat) Bool.false_ne_true.symm
  · next t hpc =>
    rw [hpc] at hat
    rw [List.append_nil]
    obtain ⟨hclear, hfresh, -, hkilled⟩ := hat
    refine ⟨h.down, fun hm => .inl ((h.missed hm).resolve_right ?_), hfresh, .inl hclear⟩
    rw [hkilled]
    exact Bool.false_ne_true
  · next t hpc =>
    rw [hpc] at hat
    split
    · exact h.goto _ trivial
    · next hoff =>
      exact h.goto _ ⟨hat.1, hat.2.resolve_right fun hkilled =>
        hoff (killSwitch_of_feedKilled hkilled)⟩
  · next t hpc =>
    have hwatch : watch (l ++ .traded t.snap.lighter.quoteAgeMs t.snap.hl.quoteAgeMs ::
        (s.call cfg (.tick t.nowMs venues)).2) = watch l := by
      rw [← List.singleton_append, ← List.append_assoc, watch_append_plain (call_plain s _),
        watch_append]
      rfl
    refine ⟨h.down, ?_, trivial⟩
    dsimp only
    rw [hwatch]
    exact h.missed

theorem readError_watched (h : Watched l s) (reason : String) :
    Watched (l ++ (s.step cfg (.readError reason)).2) (s.step cfg (.readError reason)).1 := by
  have hdown : (s.feed.onReadError reason).disconnecting ≠ none →
      (s.feed.onReadError reason).connected = false := by
    unfold HlFillFeed.onReadError
    split
    · exact fun _ => rfl
    · exact h.down
  -- A loss has its callback still to come.
  have hkept : s.feed.disconnecting ≠ none → (s.feed.onReadError reason).disconnecting ≠ none := by
    unfold HlFillFeed.onReadError
    split
    · exact fun _ => Option.some_ne_none _
    · exact id
  have hlost : s.feed.isSubscribed = true →
      (s.feed.onReadError reason).disconnecting ≠ none := by
    intro hsub
    rw [HlFillFeed.isSubscribed, Bool.and_eq_true] at hsub
    rw [HlFillFeed.onReadError, if_pos hsub.1]
    exact Option.some_ne_none _
  simp only [step]
  split
  · next hsub =>
    have hwatch : watch (l ++ [.lost]) = { watch l with missed := true } := watch_append l _
    refine ⟨hdown, fun _ => .inl (hlost hsub), ?_⟩
    rw [hwatch]
    exact h.atPc.frame rfl rfl rfl fun _ _ _ _ => hlost hsub
  · rw [List.append_nil]
    refine ⟨hdown, fun hm => (h.missed hm).imp hkept id, ?_⟩
    exact h.atPc.frame rfl rfl rfl fun _ _ hold hm => hkept (hold hm)

/-- A step of the feed that neither loses nor forgets anything. -/
theorem Watched.feed (h : Watched l s) (feed : HlFillFeed)
    (hdisc : feed.disconnecting = s.feed.disconnecting)
    (hdown : feed.disconnecting ≠ none → feed.connected = false) :
    Watched (l ++ []) { s with feed } := by
  rw [List.append_nil]
  refine ⟨hdown, ?_, h.atPc.frame rfl rfl rfl fun _ _ hold => ?_⟩
  · dsimp only
    rw [hdisc]
    exact h.missed
  · dsimp only
    rw [hdisc]
    exact hold

theorem step_watched (h : Watched l s) (e : LoopEvent) (hnoticed : s.Noticed e) :
    Watched (l ++ (s.step cfg e).2) (s.step cfg e).1 := by
  have hquiet : Watched (l ++ []) s := by rwa [List.append_nil]
  cases e with
  | fill fillPrice fillSizeBase snapshot oid hlFee venues =>
    simp only [step]
    split
    · exact h.still (call_plain s _) rfl rfl rfl
    · exact hquiet
  | fillsDrained =>
    simp only [step]
    split
    · exact h.goto _ trivial
    · exact hquiet
  | trade trade venues =>
    simp only [step]
    split
    · exact h.still (call_plain s _) rfl rfl rfl
    · exact hquiet
  | snapshot snap nowMs =>
    simp only [step]
    split
    · split
      · exact h.goto _ trivial
      · exact h.goto _ trivial
    · exact hquiet
  | next venues response => exact next_watched h venues response hnoticed
  | readError reason => exact readError_watched h reason
  | callback venues => exact callback_watched h venues hnoticed
  | handshake =>
    refine h.feed _ ?_ ?_
    · unfold HlFillFeed.onHandshake
      split <;> rfl
    · unfold HlFillFeed.onHandshake
      split
      · next hnone => exact fun hne => absurd hnone hne
      · exact h.down
  | subscriptionResponse =>
    refine h.feed _ ?_ ?_
    · unfold HlFillFeed.onSubscriptionResponse
      split <;> rfl
    · unfold HlFillFeed.onSubscriptionResponse
      split <;> exact h.down

/-- The main thread ticks the engine with its eyes open. -/
theorem next_sighted (h : Watched l s) (hl : Sighted l) (venues : Venues)
    (response : Option HttpResponse) : Sighted (l ++ (s.next cfg venues response).2) := by
  have hplain : ∀ obs : List LoopObs, (∀ o ∈ obs, o.isPlain = true) → Sighted (l ++ obs) :=
    fun obs ho => sighted_append (fun o hm => sees_of_plain (ho o hm)) hl
  have hnil : Sighted (l ++ []) := hplain [] (by simp)
  have hat := h.atPc
  unfold next
  split
  · exact hnil
  · exact hnil
  · exact hnil
  · exact sighted_snoc.mpr ⟨hl, trivial⟩
  · split
    · exact hnil
    · split <;> exact hnil
  · exact hplain _ (cancelActive_plain s venues)
  · split <;> exact sighted_snoc.mpr ⟨hl, trivial⟩
  · exact hnil
  · split
    · split <;> exact hnil
    · split <;> exact hnil
  · exact hnil
  · exact hnil
  · split <;> exact hnil
  · next t hpc =>
    rw [hpc] at hat
    obtain ⟨⟨hlighter, hhl⟩, hsub, howed⟩ := hat
    have hsees : Sighted (l ++ [.traded t.snap.lighter.quoteAgeMs t.snap.hl.quoteAgeMs]) :=
      sighted_snoc.mpr ⟨hl, hsub, hlighter, hhl, howed⟩
    have hrest := sighted_append
      (fun o ho => sees_of_plain (@call_plain cfg s (.tick t.nowMs venues) o ho)) hsees
    rwa [List.append_assoc, List.singleton_append] at hrest

theorem step_sighted (h : Watched l s) (hl : Sighted l) (e : LoopEvent) :
    Sighted (l ++ (s.step cfg e).2) := by
  have hplain : ∀ obs : List LoopObs, (∀ o ∈ obs, o.isPlain = true) → Sighted (l ++ obs) :=
    fun obs ho => sighted_append (fun o hm => sees_of_plain (ho o hm)) hl
  have hnil : Sighted (l ++ []) := hplain [] (by simp)
  cases e with
  | next venues response => exact next_sighted h hl venues response
  | fill fillPrice fillSizeBase snapshot oid hlFee venues =>
    simp only [step]
    split
    · exact hplain _ (call_plain s _)
    · exact hnil
  | trade trade venues =>
    simp only [step]
    split
    · exact hplain _ (call_plain s _)
    · exact hnil
  | fillsDrained =>
    simp only [step]
    split <;> exact hnil
  | snapshot snap nowMs =>
    simp only [step]
    split
    · split <;> exact hnil
    · exact hnil
  | readError reason =>
    simp only [step]
    split
    · exact sighted_snoc.mpr ⟨hl, trivial⟩
    · exact hnil
  | callback venues =>
    simp only [step]
    unfold callback
    split
    · exact hnil
    · split
      · exact hplain _ (cancelActive_plain s venues)
      · exact hnil
  | handshake => exact hnil
  | subscriptionResponse => exact hnil

end Steps

/-- The loop as it starts, with its engine synced to the HL position `p₀`. -/
def start (journalAttached : Bool) (p₀ : ℚ) : LiveLoop where
  engine := .start journalAttached p₀

theorem watched_start (journalAttached : Bool) (p₀ : ℚ) : Watched [] (start journalAttached p₀) :=
  ⟨fun h => absurd rfl h, fun h => absurd h Bool.false_ne_true, trivial⟩

/-- Runs whose steps are all noticed are sighted. -/
theorem sighted_always (cfg : EngineConfig) (journalAttached : Bool) (p₀ : ℚ)
    (es : List LoopEvent)
    (h : (machine cfg).Throughout (start journalAttached p₀) (fun _ s e => s.Noticed e) es) :
    (machine cfg).Always (start journalAttached p₀) (fun l _ => Sighted l) es := by
  have hboth : (machine cfg).Always (start journalAttached p₀)
      (fun l s => Watched l s ∧ Sighted l) es := by
    have hnil : Sighted [] := fun pre o hp => absurd (List.prefix_nil.mp hp) (by simp)
    refine EventMachine.always_of_throughout ⟨watched_start journalAttached p₀, hnil⟩ ?_ h
    rintro l s e ⟨hw, hl⟩ hn
    exact ⟨step_watched hw e hn, step_sighted hw hl e⟩
  exact hboth.mono fun _ _ hp => hp.2

/-! ## Runs -/

/-- The venues one apart, with quotes `ageMs` old. -/
def snapAged (ageMs : Int) : SpreadSnapshot where
  lighter := { bookAround 101 with quoteAgeMs := ageMs }
  hl := { bookAround 100 with quoteAgeMs := ageMs }

/-- An iteration without fills or trades, the position query answering `body`. -/
def iteration (ageMs nowMs : Int) (body : String) : List LoopEvent :=
  [.fillsDrained, .snapshot (snapAged ageMs) nowMs] ++
    List.replicate 7 (.next (obligingVenues 100 101 nowMs "") (some { statusCode := 200, body }))

def feedUp : List LoopEvent := [.handshake, .subscriptionResponse]

/-- The feed is lost between two iterations that trade; the second one reconciles. -/
theorem sighted_after_loss :
    (machine sampleConfig).Always (start false 0) (fun l _ => Sighted l)
      (feedUp ++ iteration 0 1000 "" ++
        [.readError "eof", .callback (obligingVenues 100 101 1500 "")] ++ feedUp ++
        iteration 0 2000 "\"coin\":\"HYPE\",\"szi\":\"1.5\"") :=
  sighted_always _ _ _ _ (by decide +kernel)

/-- The feed is lost while the kill switch is on for stale quotes. With fresh quotes the switch is
reset, and the engine ticks without the feed. -/
theorem blind_after_stale :
    ¬ (machine sampleConfig).Always (start false 0) (fun l _ => Sighted l)
      (feedUp ++ iteration 6000 1000 "" ++
        [.readError "eof", .callback (obligingVenues 100 101 1500 "")] ++ iteration 0 2000 "") := by
  intro h
  have hsub := (h.last [.read true, .lost, .read false] (.traded 0 0) (by decide +kernel)).1
  exact Bool.false_ne_true hsub

end LiveLoop

end Arb

import Srun.Answers
import Srun.Framework.Observer

/-!
# Heartbeats

When `epoll_wait` times out the manager writes a SYN, and `is_syn` says that it waits for
the ACK. When `epoll_wait` times out again while it waits, it throws. A SYN of the client
is to be answered by an ACK; `recv_message` prepares one, and then passes the SYN itself to
`send_message`.

The observer keeps the traffic that this is about: the messages written and received, and
the calls of `epoll_wait` that have timed out. `disciplined_iff` says that the discipline
of the heartbeats holds in every run in which the client sends no SYN, and in no other.
-/

namespace Srun

/-- An entry of the traffic. -/
inductive Traffic
  | wrote (m : Message)
  | got (m : Message)
  /-- `epoll_wait` has timed out: no event has come for a full timeout. `raised` says that
  the manager has thrown `syn timeout`. -/
  | expired (raised : Bool)

/-- The SYN messages written and not answered; the newest entry is the head. -/
def unanswered : List Traffic → ℕ
  | [] => 0
  | .wrote m :: log => if m.method = .syn then unanswered log + 1 else unanswered log
  | .got m :: log => if m.method = .ack then 0 else unanswered log
  | .expired _ :: log => unanswered log

/-- The newest entry is a SYN of the client. -/
def owing : List Traffic → Bool
  | .got m :: _ => m.method = .syn
  | _ => false

namespace Pc

/-- In `send_message`. -/
def isSend : Pc → Bool
  | .send _ _ => true
  | _ => false

/-- The points from which a step can add to the traffic. -/
def speaking : Pc → Bool
  | .recv _ _ | .send _ _ | .epollWait => true
  | _ => false

end Pc

/-- The labels of the steps that can add to the traffic. -/
def Label.talks : Label → Bool
  | .read none | .write _ (.wrote _) | .epollWait .timeout => true
  | _ => false

namespace Proc

/-- The traffic after a step. -/
def traffic (E : Env) (p : Proc) (ev : Event) (p' : Proc) (log : List Traffic) : List Traffic :=
  match p.mgr.pc, ev with
  | .recv data _, .mgr (.read none) =>
    if data = [] then log else (E.parse data).toList.map .got ++ log
  | .send m _, .mgr (.write data (.wrote n)) => if n = data.length then .wrote m :: log else log
  | .epollWait, .mgr (.epollWait .timeout) =>
    .expired (p'.mgr.pc = .destroy .entry .uncaught) :: log
  | _, _ => log

/-- The discipline, at each moment and for the newest entry. -/
structure Disciplined (p : Proc) (log : List Traffic) : Prop where
  single : unanswered log ≤ 1
  /-- After a SYN of the client comes an ACK, and ACKs come only there. -/
  answered : ∀ t rest, log = t :: rest →
    (owing rest = true ↔ ∃ m, t = .wrote m ∧ m.method = .ack)
  /-- It is an ACK that is passed to `send_message`. -/
  answering : owing log = true → ∀ m k, p.mgr.pc = .send m k → m.method = .ack
  timeout : ∀ rest, log = .expired true :: rest → 0 < unanswered rest

/-- `recv_message` reads a SYN. -/
def hearsSyn (E : Env) (p : Proc) : Event → Bool
  | .mgr (.read none) =>
    match p.mgr.pc with
    | .recv data _ => data ≠ [] && (E.parse data).any (·.method = .syn)
    | _ => false
  | _ => false

/-- What holds as long as the client sends no SYN. -/
structure Beating (p : Proc) (log : List Traffic) : Prop where
  got : ∀ m, .got m ∈ log → m.method ≠ .syn
  wrote : ∀ m, .wrote m ∈ log → m.method ≠ .ack
  /-- Nothing is sent but heartbeats and results. -/
  sends : ∀ m k, p.mgr.pc = .send m k →
    (k = .heartbeat ∧ m.method = .syn) ∨ (k ≠ .heartbeat ∧ m.isResult = true)
  calm : p.mgr.isSyn = false → unanswered log = 0
  single : unanswered log ≤ 1
  beat : ∀ m, p.mgr.pc = .send m .heartbeat → p.mgr.isSyn = true ∧ unanswered log = 0
  waiting : p.mgr.isSyn = true → p.mgr.pc.ending = false →
    (∀ m, p.mgr.pc ≠ .send m .heartbeat) → unanswered log = 1
  timeout : ∀ rest, log = .expired true :: rest → 0 < unanswered rest

variable {E : Env} {p p' : Proc} {ev : Event} {log : List Traffic} {l : Label}

theorem Beating.start (fd : ℕ) : Beating (start fd) [] := by
  constructor <;> simp [Proc.start, unanswered]

theorem Beating.owing_eq_false (h : Beating p log) {pre rest : List Traffic}
    (hlog : log = pre ++ rest) : owing rest = false := by
  unfold owing
  split
  · next m rest' =>
    have := h.got m (by rw [hlog]; simp)
    simpa using this
  · rfl

/-- Without a SYN of the client the discipline is kept. -/
theorem Beating.disciplined (h : Beating p log) : Disciplined p log where
  single := h.single
  answered := by
    rintro t rest rfl
    rw [h.owing_eq_false (List.singleton_append).symm]
    refine iff_of_false (by simp) ?_
    rintro ⟨m, rfl, hm⟩
    exact h.wrote m List.mem_cons_self hm
  answering := by
    intro howing
    rw [h.owing_eq_false (List.nil_append _).symm] at howing
    cases howing
  timeout := h.timeout

theorem traffic_of_ne (h : p.mgr.pc.speaking = false) : traffic E p ev p' log = log := by
  unfold traffic
  split
  · next hpc => rw [hpc] at h; cases h
  · next hpc => rw [hpc] at h; cases h
  · next hpc => rw [hpc] at h; cases h
  · rfl

theorem traffic_of_silent (h : ∀ l, ev = .mgr l → l.talks = false) :
    traffic E p ev p' log = log := by
  unfold traffic
  split
  · cases h _ rfl
  · cases h _ rfl
  · cases h _ rfl
  · rfl

/-- The points to which a step may go that begins no heartbeat. -/
def Mute (pc : Pc) : Prop := ∀ m k, pc = .send m k → k ≠ .heartbeat ∧ m.isResult = true

theorem Mute.of_isSend {pc : Pc} (h : pc.isSend = false) : Mute pc := by
  rintro m k rfl
  cases h

/-- **Frame rule.** A step that adds nothing to the traffic, leaves `is_syn` alone and
begins no heartbeat. -/
theorem Beating.frame (h : Beating p log) {m : Manager} {cs : List (Int × Life)} {hi : History}
    (hsyn : m.isSyn = p.mgr.isSyn) (hmute : Mute m.pc)
    (hbeat : m.pc.ending = false → p.mgr.pc.ending = false ∧ ∀ a, p.mgr.pc ≠ .send a .heartbeat) :
    Beating { mgr := m, children := cs, hist := hi } log := by
  constructor
  case got => exact h.got
  case wrote => exact h.wrote
  case sends => exact fun a k hpc => Or.inr (hmute a k hpc)
  case calm => exact fun hs => h.calm (hsyn ▸ hs)
  case single => exact h.single
  case beat => exact fun a hpc => absurd rfl (hmute a _ hpc).1
  case waiting =>
    intro hs hend _
    obtain ⟨hend, hpc⟩ := hbeat hend
    exact h.waiting (hsyn ▸ hs) hend hpc
  case timeout => exact h.timeout

/-- `epoll_wait` times out. -/
theorem Beating.expired (h : Beating p log) (hpc : p.mgr.pc = .epollWait)
    (hstep : p.step E (.mgr (.epollWait .timeout)) = some p') :
    Beating p' (traffic E p (.mgr (.epollWait .timeout)) p' log) := by
  have htraffic : traffic E p (.mgr (.epollWait .timeout)) p' log =
      .expired (p'.mgr.pc = .destroy .entry .uncaught) :: log := by
    unfold traffic
    rw [hpc]
  rw [htraffic]
  obtain ⟨m, hm, rfl⟩ := Option.map_eq_some_iff.mp hstep
  have hreturn : p.mgr.epollReturn .timeout = some m := by
    simpa only [Manager.step, Manager.codeStep, hpc, Manager.managerStart] using hm
  have hgot : ∀ (b : Bool) (m : Message), .got m ∈ Traffic.expired b :: log → m.method ≠ .syn := by
    intro b m hmem
    exact h.got m (by simpa using hmem)
  have hwrote : ∀ (b : Bool) (m : Message), .wrote m ∈ Traffic.expired b :: log →
      m.method ≠ .ack := by
    intro b m hmem
    exact h.wrote m (by simpa using hmem)
  simp only [Manager.epollReturn] at hreturn
  split_ifs at hreturn with ht hlive hsyn
  · -- no ACK has come: the manager throws
    cases hreturn
    have hone : unanswered log = 1 := h.waiting hsyn (by rw [hpc]; rfl) (by rw [hpc]; simp)
    constructor
    case got => exact hgot _
    case wrote => exact hwrote _
    case sends =>
      intro a k hsend
      cases hsend
    case calm =>
      intro hs
      have hs : p.mgr.isSyn = false := hs
      rw [hsyn] at hs
      cases hs
    case single => exact h.single
    case beat =>
      intro a hsend
      cases hsend
    case waiting =>
      intro _ hend
      cases hend
    case timeout =>
      -- the SYN that has been waited for is still unanswered
      intro rest hlog
      obtain rfl : log = rest := (List.cons.inj hlog).2
      omega
  · -- the heartbeat is to be written
    cases hreturn
    have hzero : unanswered log = 0 := h.calm (Bool.eq_false_iff.mpr hsyn)
    constructor
    case got => exact hgot _
    case wrote => exact hwrote _
    case sends =>
      intro a k hsend
      cases hsend
      exact Or.inl ⟨rfl, rfl⟩
    case calm =>
      intro hs
      cases hs
    case single => exact h.single
    case beat => exact fun a _ => ⟨rfl, hzero⟩
    case waiting => exact fun _ _ hsend => absurd rfl (hsend Manager.synMessage)
    case timeout =>
      intro rest hlog
      cases (List.cons.inj hlog).1
  · -- nobody is waited for
    cases hreturn
    constructor
    case got => exact hgot _
    case wrote => exact hwrote _
    case sends =>
      intro a k hsend
      cases hsend
    case calm => exact h.calm
    case single => exact h.single
    case beat =>
      intro a hsend
      cases hsend
    case waiting => exact fun hs _ _ => h.waiting hs (by rw [hpc]; rfl) (by rw [hpc]; simp)
    case timeout =>
      intro rest hlog
      cases (List.cons.inj hlog).1

/-- A message that is neither SYN nor ACK changes nothing. -/
theorem Beating.got_other (h : Beating p log) {m : Message} (hsyn : m.method ≠ .syn)
    (hack : m.method ≠ .ack) : Beating p (.got m :: log) := by
  have hcount : unanswered (.got m :: log) = unanswered log := if_neg hack
  constructor <;> try rw [hcount]
  case got =>
    intro a hmem
    rcases List.mem_cons.mp hmem with heq | hmem
    · cases heq
      exact hsyn
    · exact h.got a hmem
  case wrote => exact fun a hmem => h.wrote a (by simpa using hmem)
  case sends => exact h.sends
  case calm => exact h.calm
  case single => exact h.single
  case beat => exact h.beat
  case waiting => exact h.waiting
  case timeout =>
    intro rest hlog
    cases (List.cons.inj hlog).1

/-- An ACK answers. -/
theorem Beating.got_ack (h : Beating p log) {m : Message} {s : Manager} {cs : List (Int × Life)}
    {hi : History} (hack : m.method = .ack) (hsend : s.pc.isSend = false)
    (hsyn : s.isSyn = false ∨ s.pc.ending = true) :
    Beating { mgr := s, children := cs, hist := hi } (.got m :: log) := by
  have hcount : unanswered (.got m :: log) = 0 := if_pos hack
  have hno : ∀ a k, s.pc ≠ .send a k := by
    intro a k hpc
    rw [hpc] at hsend
    cases hsend
  constructor
  case got =>
    intro a hmem
    rcases List.mem_cons.mp hmem with heq | hmem
    · cases heq
      rw [hack]
      simp
    · exact h.got a hmem
  case wrote => exact fun a hmem => h.wrote a (by simpa using hmem)
  case sends => exact fun a k hpc => absurd hpc (hno a k)
  case calm => exact fun _ => hcount
  case single => exact hcount.trans_le (Nat.zero_le 1)
  case beat => exact fun a hpc => absurd hpc (hno a _)
  case waiting =>
    -- the ACK has reset `is_syn`, or the manager ends
    intro hs hend _
    have hs : s.isSyn = true := hs
    have hend : s.pc.ending = false := hend
    simp [hs, hend] at hsyn
  case timeout =>
    intro rest hlog
    cases (List.cons.inj hlog).1

/-- A message is received. -/
theorem Beating.received (h : Beating p log) {data : Bytes} {evs : List Int} {m : Message}
    {cs : List (Int × Life)} {hi : History} (hpc : p.mgr.pc = .recv data evs)
    (hm : m.method ≠ .syn) :
    Beating { mgr := Manager.received E p.mgr data m evs, children := cs, hist := hi }
      (.got m :: log) := by
  by_cases hack : m.method = .ack
  · refine h.got_ack hack ?_ (Or.inl ?_)
    · simp [Manager.received, hack, Pc.isSend]
    · simp [Manager.received, hack]
  · have hbeat : p.mgr.pc.ending = false ∧ ∀ a, p.mgr.pc ≠ .send a .heartbeat := by
      rw [hpc]
      exact ⟨rfl, by simp⟩
    refine (h.got_other hm hack).frame ?_ ?_ fun _ => hbeat
    · unfold Manager.received
      split
      · rfl
      · next heq => exact absurd heq hack
      · split <;> rfl
      all_goals rfl
    · apply Mute.of_isSend
      unfold Manager.received
      split
      · next heq => exact absurd heq hm
      · rfl
      · split <;> rfl
      all_goals rfl

/-- A message is written. -/
theorem Beating.sent (h : Beating p log) {m : Message} {k : SendRet} {b : Bool}
    {cs : List (Int × Life)} {hi : History} (hpc : p.mgr.pc = .send m k) :
    Beating { mgr := { p.mgr with resultSendback := b, pc := k.pc }, children := cs, hist := hi }
      (.wrote m :: log) := by
  have hno : ∀ a k', k.pc ≠ .send a k' := by
    intro a k'
    cases k <;> simp [SendRet.pc]
  have hgot : ∀ a, .got a ∈ Traffic.wrote m :: log → a.method ≠ .syn := by
    intro a hmem
    exact h.got a (by simpa using hmem)
  have hwrote : m.method ≠ .ack → ∀ a, .wrote a ∈ Traffic.wrote m :: log → a.method ≠ .ack := by
    intro hm a hmem
    rcases List.mem_cons.mp hmem with heq | hmem
    · cases heq
      exact hm
    · exact h.wrote a hmem
  rcases h.sends m k hpc with ⟨rfl, hsyn⟩ | ⟨hk, hresult⟩
  · -- the heartbeat: now one SYN is unanswered
    obtain ⟨hwait, hzero⟩ := h.beat m hpc
    have hcount : unanswered (.wrote m :: log) = 1 := by
      rw [unanswered, if_pos hsyn, hzero]
    constructor
    case got => exact hgot
    case wrote => exact hwrote (by rw [hsyn]; simp)
    case sends => exact fun a k' hsend => absurd hsend (hno a k')
    case calm =>
      intro hs
      have hs : p.mgr.isSyn = false := hs
      rw [hwait] at hs
      cases hs
    case single => exact Nat.le_of_eq hcount
    case beat => exact fun a hsend => absurd hsend (hno a _)
    case waiting => exact fun _ _ _ => hcount
    case timeout =>
      intro rest hlog
      cases (List.cons.inj hlog).1
  · -- an answer: it is neither SYN nor ACK
    simp only [Message.isResult, Bool.and_eq_true, decide_eq_true_eq] at hresult
    have hcount : unanswered (.wrote m :: log) = unanswered log := if_neg hresult.1
    constructor
    case got => exact hgot
    case wrote => exact hwrote hresult.2
    case sends => exact fun a k' hsend => absurd hsend (hno a k')
    case calm => exact fun hs => hcount.trans (h.calm hs)
    case single => exact hcount.trans_le h.single
    case beat => exact fun a hsend => absurd hsend (hno a _)
    case waiting =>
      intro hs _ _
      refine hcount.trans (h.waiting hs (by rw [hpc]; rfl) fun a hsend => hk ?_)
      rw [hpc] at hsend
      cases hsend
      rfl
    case timeout =>
      intro rest hlog
      cases (List.cons.inj hlog).1

/-- An exception comes with no message or with the one just received. -/
theorem Beating.throws (h : Beating p log) {cs : List (Int × Life)} {hi : History}
    (hl : p.mgr.pc.throws l = true) (hexp : p.mgr.pc = .epollWait → l ≠ .epollWait .timeout)
    (hquiet : hearsSyn E p (.mgr l) = false) :
    Beating { mgr := p.mgr.raise, children := cs, hist := hi } (traffic E p (.mgr l) p' log) := by
  have hraise : ∀ {q : Proc} {log : List Traffic}, Beating q log → q.mgr = p.mgr →
      Beating { mgr := p.mgr.raise, children := cs, hist := hi } log := by
    intro q log hq hmgr
    rw [← hmgr]
    exact hq.frame rfl (Mute.of_isSend rfl) fun hend => (by cases hend)
  unfold traffic
  split
  · -- the last read of a message: the exception comes before or after it is counted
    next data _ hpc heq =>
    cases heq
    split
    · exact hraise h rfl
    · next hdata =>
      cases hm : E.parse data with
      | none => exact hraise h rfl
      | some m =>
        have hsyn : m.method ≠ .syn := by
          simpa [hearsSyn, hpc, hdata, hm] using hquiet
        show Beating _ (.got m :: log)
        by_cases hack : m.method = .ack
        · exact h.got_ack hack rfl (Or.inr rfl)
        · exact hraise (h.got_other hsyn hack) rfl
  · next hpc heq =>
    -- the write was short, so that the message is not counted
    cases heq
    rw [hpc] at hl
    rw [if_neg (of_decide_eq_true hl)]
    exact hraise h rfl
  · -- the timeout has been treated apart
    next hpc heq =>
    cases heq
    exact absurd rfl (hexp hpc)
  · exact hraise h rfl

theorem Beating.step (h : Beating p log) (hquiet : hearsSyn E p ev = false)
    (hstep : p.step E ev = some p') : Beating p' (traffic E p ev p' log) := by
  by_cases hexp : p.mgr.pc = .epollWait ∧ ev = .mgr (.epollWait .timeout)
  · obtain ⟨hpc, rfl⟩ := hexp
    exact h.expired hpc hstep
  cases step_cases hstep with
  | exit hc hst =>
    rw [traffic_of_silent (by intro l hl; cases hl)]
    exact ⟨h.got, h.wrote, h.sends, h.calm, h.single, h.beat, h.waiting, h.timeout⟩
  | @mgr l m hadm hm =>
    cases hm with
    | sigterm t =>
      rw [traffic_of_silent (by intro l hl; cases hl; rfl)]
      exact ⟨h.got, h.wrote, h.sends, h.calm, h.single, h.beat, h.waiting, h.timeout⟩
    | throws hl =>
      exact h.throws hl (fun hpc hlabel => hexp ⟨hpc, by rw [hlabel]⟩) hquiet
    | unlockThrow hpc =>
      have htalk : p.mgr.pc.speaking = false := by
        cases hp : p.mgr.pc <;> rw [hp] at hpc <;> first | rfl | cases hpc
      rw [traffic_of_ne htalk]
      exact h.frame rfl (Mute.of_isSend rfl) fun hend => (by cases hend)
    | @received data evs m hpc hdata hm =>
      have htraffic : ∀ p', traffic E p (.mgr (.read none)) p' log = .got m :: log := by
        intro p'
        unfold traffic
        rw [hpc]
        simp only [if_neg hdata, hm]
        rfl
      rw [htraffic]
      exact h.received hpc (by simpa [hearsSyn, hpc, hdata, hm] using hquiet)
    | @sent m k data hpc hdata hne =>
      have htraffic : ∀ p', traffic E p (.mgr (.write data (.wrote data.length))) p' log =
          .wrote m :: log := by
        intro p'
        unfold traffic
        rw [hpc]
        exact if_pos rfl
      rw [htraffic]
      exact h.sent hpc
    | readNothing hpc =>
      have htraffic : ∀ p', traffic E p (.mgr (.read none)) p' log = log := by
        intro p'
        unfold traffic
        rw [hpc]
        exact if_pos rfl
      rw [htraffic]
      exact h.frame rfl (Mute.of_isSend rfl) fun _ => by rw [hpc]; exact ⟨rfl, by simp⟩
    | readChunk c hpc | epollEintr hpc | epollReady fds hpc =>
      rw [traffic_of_silent (by intro l hl; cases hl; rfl)]
      exact h.frame rfl (Mute.of_isSend rfl) fun _ => by rw [hpc]; exact ⟨rfl, by simp⟩
    -- these are the timeouts
    | heartbeat hpc | epollIdle hpc => exact absurd ⟨hpc, rfl⟩ hexp
    | sigpipe hpc =>
      rw [traffic_of_silent (by intro l hl; cases hl; rfl)]
      exact h.frame rfl (Mute.of_isSend rfl) fun hend => (by cases hend)
    -- an answer is prepared: it is a result, and no heartbeat
    | findMissing hpc | replyBackend hpc | listUnlock hpc | stopEnd hpc =>
      rw [traffic_of_ne (by rw [hpc]; rfl)]
      refine h.frame rfl (fun a k hsend => ?_) fun _ => by rw [hpc]; exact ⟨rfl, by simp⟩
      cases hsend
      exact ⟨by simp, rfl⟩
    | loopCheck hpc =>
      rw [traffic_of_ne (by rw [hpc]; rfl)]
      refine h.frame rfl ?_ fun _ => by rw [hpc]; exact ⟨rfl, by simp⟩
      refine Manager.loopCheck_pc (Mute.of_isSend rfl) (fun _ _ _ a k hsend => ?_)
        fun _ => Mute.of_isSend rfl
      cases hsend
      exact ⟨by simp, rfl⟩
    | dispatch evs hpc =>
      rw [traffic_of_ne (by rw [hpc]; rfl)]
      refine h.frame rfl (Mute.of_isSend ?_) fun _ => by rw [hpc]; exact ⟨rfl, by simp⟩
      exact Manager.dispatch_pc rfl (fun _ => rfl) (fun _ _ => rfl) (fun _ _ => rfl) fun _ => rfl
    | @reap k st hpc =>
      rw [traffic_of_ne (by rw [hpc]; rfl)]
      refine h.frame (Manager.reaped_field Manager.isSyn fun _ _ _ _ => rfl)
        (Mute.of_isSend (Manager.reaped_pc rfl rfl rfl)) fun hend => ?_
      rw [hpc]
      refine ⟨?_, by simp⟩
      revert hend
      exact Manager.reaped_pc id id id
    | @argsSurvive k hpc =>
      rw [traffic_of_ne (by rw [hpc]; rfl)]
      refine h.frame (Manager.clearEntry_field Manager.isSyn fun _ _ => rfl)
        (Mute.of_isSend (Manager.clearEntry_pc rfl rfl)) fun hend => ?_
      rw [hpc]
      refine ⟨?_, by simp⟩
      revert hend
      exact Manager.clearEntry_pc id id
    | waitOther hpc =>
      rw [traffic_of_ne (by rw [hpc]; rfl)]
      exact ⟨h.got, h.wrote, h.sends, h.calm, h.single, h.beat, h.waiting, h.timeout⟩
    | @waitNone k hpc =>
      rw [traffic_of_ne (by rw [hpc]; rfl)]
      cases k with
      | loop => exact h.frame rfl (Mute.of_isSend rfl) fun _ => by rw [hpc]; exact ⟨rfl, by simp⟩
      | destroy how => exact h.frame rfl (Mute.of_isSend rfl) fun hend => (by cases hend)
    | @stopKill k hpc | @stopIdle k hpc =>
      rw [traffic_of_ne (by rw [hpc]; rfl)]
      refine h.frame rfl (Mute.of_isSend (by cases k <;> rfl)) fun _ => ?_
      rw [hpc]
      exact ⟨rfl, by simp⟩
    -- the process ends or is about to, and sends nothing any more
    | argsDie hpc | epollCreateFail hpc | loadOutFail hpc | loadErrFail hpc | cloneFail hpc
    | bindOutFail hpc | bindErrFail hpc | timerCreateFail hpc =>
      rw [traffic_of_ne (by rw [hpc]; rfl)]
      exact h.frame rfl (Mute.of_isSend rfl) fun hend => (by cases hend)
    | _ =>
      have hpc := ‹p.mgr.pc = _›
      rw [traffic_of_ne (by rw [hpc]; rfl)]
      exact h.frame rfl (Mute.of_isSend rfl) fun hend => by
        rw [hpc]
        exact ⟨hend, by simp⟩

/-- A SYN of the client is sent back, where an ACK is due. -/
theorem not_disciplined_of_hearsSyn (hsyn : hearsSyn E p ev = true)
    (hstep : p.step E ev = some p') : ¬ Disciplined p' (traffic E p ev p' log) := by
  intro h
  unfold hearsSyn at hsyn
  split at hsyn
  · split at hsyn
    · next data evs hpc =>
      obtain ⟨hdata, hparse⟩ := Bool.and_eq_true_iff.mp hsyn
      obtain ⟨m, hm, hmethod⟩ := (Option.any_eq_true _ _).mp hparse
      have hdata : data ≠ [] := of_decide_eq_true hdata
      have hmethod : m.method = .syn := of_decide_eq_true hmethod
      obtain ⟨s, hs, rfl⟩ := Option.map_eq_some_iff.mp hstep
      have hsend : s = p.mgr.goto (.send m (.reply evs)) := by
        simpa [Manager.step, Manager.codeStep, hpc, Manager.recvMessage, hdata, hm,
          Manager.received, hmethod, eq_comm] using hs
      -- the SYN is the newest entry, and it is about to be written itself
      have howing : owing (traffic E p (.mgr (.read none))
          { mgr := s, children := p.childrenAfter (.read none),
            hist := p.histAfter E (.read none) } log) = true := by
        unfold traffic
        rw [hpc]
        simp [hdata, hm, owing, hmethod]
      have hack := h.answering howing m (.reply evs) (by rw [hsend]; rfl)
      rw [hmethod] at hack
      cases hack
    · cases hsyn
  · cases hsyn

/-- **Heartbeat discipline.** At all times at most one SYN of the manager is unanswered,
every SYN of the client is answered by one ACK and by nothing else, and `syn timeout` is
thrown only after a full timeout with a SYN unanswered: this holds in a run if and only if
the client sends no SYN in it. -/
theorem disciplined_iff {fd : ℕ} {evs : List Event} {o : Machine.Observed Proc (List Traffic)}
    (hrun : Machine.exec (Machine.observe (Proc.step E) (traffic E)) ⟨start fd, []⟩ evs = some o) :
    Machine.Always (Machine.observe (Proc.step E) (traffic E))
        (fun o => Disciplined o.state o.seen) ⟨start fd, []⟩ evs ↔
      Machine.StepsMeet (Proc.step E) (fun p ev => hearsSyn E p ev = false) (start fd) evs := by
  have hmeet :
      Machine.StepsMeet (Machine.observe (Proc.step E) (traffic E))
          (fun o ev => hearsSyn E o.state ev = false) ⟨start fd, []⟩ evs ↔
        Machine.StepsMeet (Proc.step E) (fun p ev => hearsSyn E p ev = false) (start fd) evs :=
    Machine.stepsMeet_observe (C := fun p ev => hearsSyn E p ev = false)
  rw [← hmeet]
  constructor
  · apply Machine.stepsMeet_of_always ?_ hrun
    intro o ev o' hstep hdis
    obtain ⟨hproc, hseen⟩ := Machine.observe_eq_some.mp hstep
    rw [hseen] at hdis
    by_contra hsyn
    exact not_disciplined_of_hearsSyn (Bool.eq_true_of_not_eq_false hsyn) hproc hdis
  · apply Machine.always_of_stepsMeet (I := fun o => Beating o.state o.seen) ?_ ?_
      (Beating.start fd)
    · intro o ev o' h hsyn hstep
      obtain ⟨hproc, hseen⟩ := Machine.observe_eq_some.mp hstep
      rw [hseen]
      exact h.step hsyn hproc
    · intro o h
      exact h.disciplined

/-- A heartbeat is written and answered; the next timeout writes another. -/
def heartbeatLabels : List Label :=
  bootLabels ++ [.epollWait .timeout, .write [8, 1] (.wrote 2)] ++ loopLabels ++
    receiveLabels ackData ++ loopLabels ++
    [.epollWait .timeout, .write [8, 1] (.wrote 2)]

theorem disciplined_iff_heartbeat :
    Machine.Always (Machine.observe (Proc.step Proto3.env) (traffic Proto3.env))
      (fun o => Disciplined o.state o.seen) ⟨start 5, []⟩ (heartbeatLabels.map .mgr) := by
  obtain ⟨o, hrun, -⟩ := Machine.exec_of_any
    (show (Machine.exec (Machine.observe (Proc.step Proto3.env) (traffic Proto3.env))
      ⟨start 5, []⟩ (heartbeatLabels.map .mgr)).any (fun _ => true) = true by decide +kernel)
  exact (disciplined_iff hrun).mpr (by decide +kernel)

/-- The client sends a SYN and gets it back. -/
theorem not_disciplined :
    ¬ ∀ evs o, Machine.exec (Machine.observe (Proc.step Proto3.env) (traffic Proto3.env))
      ⟨start 5, []⟩ evs = some o → Disciplined o.state o.seen := by
  intro hdisciplined
  obtain ⟨o, hrun, ho⟩ := Machine.exec_of_any
    (show (Machine.exec (Machine.observe (Proc.step Proto3.env) (traffic Proto3.env))
      ⟨start 5, []⟩ ((bootLabels ++ receiveLabels ⟨[8, 1], by decide, by decide⟩).map .mgr)).any
      (fun o => owing o.seen && o.state.mgr.pc == .send Manager.synMessage (.reply [])) = true by
        decide +kernel)
  simp only [Bool.and_eq_true, beq_iff_eq] at ho
  have hack := (hdisciplined _ o hrun).answering ho.1 _ _ ho.2
  cases hack

end Proc
end Srun

-- What an invite hands to the server. Each device that `welcome_to_group` adds
-- merges a commit into our copy of the group, and the other members follow only
-- when that commit reaches the server. A Welcome that does not go out ends the call
-- before the commit of its device is sent.
import PigeonMobile.EpochGroup
import PigeonMobile.Rooms

namespace PigeonMobile

/-! ## The server's side of one call -/

/-- The client, and the commit events of this call that the server has stored. -/
structure Served (D : Type) where
  client : Client D
  commits : List (String × Json)

/-- The commit event that a request carries. -/
def commitRequest : Op → Option (String × Json)
  | .api_send_event room_id event_type _ content =>
    if event_type = "p.mls.commit" then some (room_id, content) else none
  | _ => none

/-- The server stores the commit of the request, or does not. -/
def MayStore (op : Op) (l l' : List (String × Json)) : Prop :=
  l' = l ∨ ∃ c, commitRequest op = some c ∧ l' = l ++ [c]

/-- An acknowledged commit is stored, and a rejected one is not. Any other error says
nothing. -/
def AnswerFits : (op : Op) → op.Res → List (String × Json) → List (String × Json) → Prop
  | .api_send_event room_id event_type txn_id content, .ok _, l, l' =>
    ∀ c, commitRequest (.api_send_event room_id event_type txn_id content) = some c → l' = l ++ [c]
  | .api_send_event _ _ _ _, .error (.Server _ _ _), l, l' => l' = l
  | _, _, _, _ => True

variable {D : Type} (X : PigeonCrypto D)

/-- One call of the client to its own state, or to the server. -/
def Serve (op : Op) (s : Served D) (r : op.Res) (s' : Served D) : Prop :=
  Client.Exec X op s.client r s'.client ∧ MayStore op s.commits s'.commits ∧
    AnswerFits op r s.commits s'.commits

/-- What the rest of the client does between two calls. -/
def Apart (others : Client D → Client D → Prop) (s s' : Served D) : Prop :=
  others s.client s'.client ∧ s'.commits = s.commits

abbrev ServedCall (D : Type) := Prog.Event (Served D) Op Op.Res

/-- The call that a program waits on. -/
def waitsOn {α : Type} : Code α → Option Op
  | .done _ => none
  | .call op _ => some op

/-- The call ends: it has returned, or it is cancelled while a request is under way,
which the server may still get. -/
def CallEnds {α : Type} : Code α → Served D → Served D → Prop
  | .done _, s, s' => s' = s
  | .call op _, s, s' => op.isHttp = true ∧ s'.client = s.client ∧ MayStore op s.commits s'.commits

/-! ## What went out -/

/-- The commit event that an `add_member` owes to the other members. -/
def mergedBy : ServedCall D → Option (String × Json)
  | ⟨_, .add_member room_id _, .ok outcome⟩ => some (room_id, commitContent outcome.commit)
  | _ => none

/-- A to-device request that was answered by an error. -/
def welcomeFailed : ServedCall D → Bool
  | ⟨_, .api_send_to_device _ _ _, .error _⟩ => true
  | _ => false

def merged (es : List (ServedCall D)) : List (String × Json) := es.filterMap mergedBy

/-- The commit events that the call has sent, with the one under way. -/
def requests {α : Type} (es : List (ServedCall D)) (p' : Code α) : List (String × Json) :=
  (es.map (·.op) ++ (waitsOn p').toList).filterMap commitRequest

/-- No Welcome failed and none was cancelled, and every commit that was sent arrived. -/
def Delivered {α : Type} (es : List (ServedCall D)) (p' : Code α) (commits : List (String × Json)) :
    Prop :=
  (∀ e ∈ es, welcomeFailed e = false) ∧
    (∀ event_type txn_id messages,
      waitsOn p' ≠ some (.api_send_to_device event_type txn_id messages)) ∧
    commits = requests es p'

/-- Every commit that was merged is with the server. -/
def HandedOver (es : List (ServedCall D)) (commits : List (String × Json)) : Prop :=
  (merged es).Sublist commits

/-! ## The two ways a run ends -/

/-- The server has each commit that was merged. -/
def Kept {α : Type} (s : Served D) (es : List (ServedCall D)) (p' : Code α) (s' : Served D) :
    Prop :=
  ∃ new, s'.commits = s.commits ++ new ∧ merged es = new ∧ Delivered es p' new

/-- The commit merged last is not with the server. -/
def Lost {α : Type} (s : Served D) (es : List (ServedCall D)) (p' : Code α) (s' : Served D) :
    Prop :=
  ∃ new x, s'.commits = s.commits ++ new ∧ merged es = new ++ [x] ∧ ¬ Delivered es p' new

variable {X}

theorem delivered_append {α β : Type} {a : α} {es₁ es₂ : List (ServedCall D)} {p' : Code β}
    {new₁ new₂ : List (String × Json)} (h₁ : Delivered es₁ (.done a : Code α) new₁) :
    Delivered (es₁ ++ es₂) p' (new₁ ++ new₂) ↔ Delivered es₂ p' new₂ := by
  obtain ⟨hw, -, hr⟩ := h₁
  have hreq : requests (es₁ ++ es₂) p' = new₁ ++ requests es₂ p' := by
    rw [hr]
    simp [requests, waitsOn, List.filterMap_append]
  unfold Delivered
  rw [hreq, List.append_cancel_left_eq]
  constructor
  · rintro ⟨h1, h2, h3⟩
    exact ⟨fun e he => h1 e (List.mem_append_right _ he), h2, h3⟩
  · rintro ⟨h1, h2, h3⟩
    refine ⟨?_, h2, h3⟩
    intro e he
    rcases List.mem_append.mp he with he | he
    · exact hw e he
    · exact h1 e he

theorem Kept.append {α β : Type} {a : α} {s s₁ s' : Served D} {es₁ es₂ : List (ServedCall D)}
    {p' : Code β} (h₁ : Kept s es₁ (.done a : Code α) s₁) (h₂ : Kept s₁ es₂ p' s') :
    Kept s (es₁ ++ es₂) p' s' := by
  obtain ⟨new₁, hs₁, hm₁, hd₁⟩ := h₁
  obtain ⟨new₂, hs₂, hm₂, hd₂⟩ := h₂
  refine ⟨new₁ ++ new₂, ?_, ?_, (delivered_append hd₁).mpr hd₂⟩
  · rw [hs₂, hs₁, List.append_assoc]
  · rw [merged, List.filterMap_append, ← merged, ← merged, hm₁, hm₂]

theorem Kept.lost {α β : Type} {a : α} {s s₁ s' : Served D} {es₁ es₂ : List (ServedCall D)}
    {p' : Code β} (h₁ : Kept s es₁ (.done a : Code α) s₁) (h₂ : Lost s₁ es₂ p' s') :
    Lost s (es₁ ++ es₂) p' s' := by
  obtain ⟨new₁, hs₁, hm₁, hd₁⟩ := h₁
  obtain ⟨new₂, x, hs₂, hm₂, hd₂⟩ := h₂
  refine ⟨new₁ ++ new₂, x, ?_, ?_, ?_⟩
  · rw [hs₂, hs₁, List.append_assoc]
  · rw [merged, List.filterMap_append, ← merged, ← merged, hm₁, hm₂, List.append_assoc]
  · rwa [delivered_append hd₁]

/-- A run that ended, one way or the other. -/
def Settled {α : Type} (s : Served D) (es : List (ServedCall D)) (p' : Code α) (s' : Served D) :
    Prop := Kept s es p' s' ∨ Lost s es p' s'

theorem Kept.settled {α β : Type} {a : α} {s s₁ s' : Served D} {es₁ es₂ : List (ServedCall D)}
    {p' : Code β} (h₁ : Kept s es₁ (.done a : Code α) s₁) (h₂ : Settled s₁ es₂ p' s') :
    Settled s (es₁ ++ es₂) p' s' := by
  rcases h₂ with h₂ | h₂
  · exact Or.inl (h₁.append h₂)
  · exact Or.inr (h₁.lost h₂)

/-- Settled one way, the commits are handed over just where they are delivered. -/
theorem settled_iff {α : Type} {c : Client D} {es : List (ServedCall D)} {p' : Code α}
    {s' : Served D} (h : Settled ⟨c, []⟩ es p' s') :
    HandedOver es s'.commits ↔ Delivered es p' s'.commits := by
  rcases h with ⟨new, hs, hm, hd⟩ | ⟨new, x, hs, hm, hd⟩
  · rw [List.nil_append] at hs
    rw [hs]
    refine iff_of_true ?_ hd
    unfold HandedOver
    rw [hm]
  · rw [List.nil_append] at hs
    rw [hs]
    refine iff_of_false ?_ hd
    intro hsub
    have hlen := hsub.length_le
    rw [hm, List.length_append, List.length_singleton] at hlen
    omega

/-! ## The steps of an invite -/

/-- A call that neither merges nor ships anything. -/
def Op.quiet : Op → Bool
  | .add_member _ _ => false
  | .api_send_to_device _ _ _ => false
  | .api_send_event _ _ _ _ => false
  | _ => true

theorem quiet_request {op : Op} (h : op.quiet = true) : commitRequest op = none := by
  cases op <;> simp_all [Op.quiet, commitRequest]

theorem quiet_stores {op : Op} {l l' : List (String × Json)} (h : op.quiet = true)
    (hs : MayStore op l l') : l' = l := by
  rcases hs with hs | ⟨c, hc, -⟩
  · exact hs
  · rw [quiet_request h] at hc
    cases hc

/-- A quiet call in itself. -/
theorem kept_quiet {e : ServedCall D} {s s₁ : Served D} (he : e.op.quiet = true)
    (hs : s₁.commits = s.commits) : Kept s [e] (.done () : Code Unit) s₁ := by
  have hm : mergedBy e = none := by
    obtain ⟨b, op, r⟩ := e
    cases op <;> simp_all [Op.quiet, mergedBy]
  have hw : welcomeFailed e = false := by
    obtain ⟨b, op, r⟩ := e
    cases op <;> simp_all [Op.quiet, welcomeFailed]
  refine ⟨[], by rw [hs, List.append_nil], by simp [merged, hm], ?_, ?_, ?_⟩
  · intro e' he'
    rw [List.mem_singleton.mp he']
    exact hw
  · intro event_type txn_id messages h
    cases h
  · simp [requests, waitsOn, quiet_request he]

/-- A run that has made no call yet, and waits on a quiet one or is over. -/
theorem kept_idle {α : Type} {p' : Code α} {s s' : Served D} (hs : s'.commits = s.commits)
    (hq : ∀ op, waitsOn p' = some op → op.quiet = true) : Kept s [] p' s' := by
  refine ⟨[], by rw [hs, List.append_nil], rfl, fun e he => absurd he List.not_mem_nil, ?_, ?_⟩
  · intro event_type txn_id messages h
    exact absurd (hq _ h) (by simp [Op.quiet])
  · cases hw : waitsOn p' with
    | none => simp [requests, hw]
    | some op => simp [requests, hw, quiet_request (hq op hw)]

/-- A program of quiet calls. -/
theorem kept_quiet_run {α : Type} {others : Client D → Client D → Prop} {p p' : Code α}
    {s s' s'' : Served D} {es : List (ServedCall D)}
    (hr : Prog.Runs (Serve X) (Apart others) p s es p' s') (hp : p.All (fun op => op.quiet = true))
    (hend : CallEnds p' s' s'') : Kept s es p' s'' := by
  induction hr with
  | refl p s =>
    cases p with
    | done a =>
      refine kept_idle (by rw [show s'' = s from hend]) ?_
      intro op h
      cases h
    | call op k =>
      refine kept_idle (quiet_stores hp.1 hend.2.2) ?_
      rintro op' h
      cases h
      exact hp.1
  | @call op k s s₁ s₂ s' r es p' hc ho _ ih =>
    have hs₁ : s₁.commits = s.commits := quiet_stores hp.1 hc.2.1
    have hs₂ : s₂.commits = s.commits := ho.2.trans hs₁
    exact (kept_quiet (by exact hp.1) hs₂).append (ih (hp.2 r) hend)

section Runs

variable {others : Client D → Client D → Prop}

/-- The calls of a program after a quiet one. -/
theorem settled_call {α : Type} {op : Op} {k : op.Res → Code α} {p' : Code α}
    {s s' s'' : Served D} {es : List (ServedCall D)} (hq : op.quiet = true)
    (hr : Prog.Runs (Serve X) (Apart others) (.call op k) s es p' s') (hend : CallEnds p' s' s'')
    (hk : ∀ r s₂ es', Prog.Runs (Serve X) (Apart others) (k r) s₂ es' p' s' →
      Settled s₂ es' p' s'') : Settled s es p' s'' := by
  rcases hr.call_inv with ⟨rfl, rfl, rfl⟩ | ⟨r, s₁, s₂, es', hc, ho, rfl, hr'⟩
  · refine Or.inl (kept_idle (quiet_stores hq hend.2.2) ?_)
    intro op' h
    cases h
    exact hq
  · have hs₂ : s₂.commits = s.commits := ho.2.trans (quiet_stores hq hc.2.1)
    exact (kept_quiet (by exact hq) hs₂).settled (hk r s₂ es' hr')

/-- The run of a program that is over. -/
theorem settled_done {α : Type} {a : α} {p' : Code α} {s s' s'' : Served D}
    {es : List (ServedCall D)} (hr : Prog.Runs (Serve X) (Apart others) (.done a) s es p' s')
    (hend : CallEnds p' s' s'') : Kept s es p' s'' := by
  obtain ⟨rfl, rfl, rfl⟩ := hr.done_inv
  refine kept_idle (by rw [show s'' = s' from hend]) ?_
  intro op h
  cases h

/-- A device was added and its Welcome is out: the commit `x` is still to be sent. -/
structure Owing (s : Served D) (es : List (ServedCall D)) (s₁ : Served D) (x : String × Json) :
    Prop where
  commits : s₁.commits = s.commits
  owes : merged es = [x]
  shipped : ∀ e ∈ es, welcomeFailed e = false
  unsent : (es.map (·.op)).filterMap commitRequest = []

/-- The commit that is owed was sent once: it arrived, or it did not. -/
theorem Owing.sent {α : Type} {s s₁ s' : Served D} {es es' : List (ServedCall D)} {p' : Code α}
    {x : String × Json} (h : Owing s es s₁ x) (hw : ∀ e ∈ es', welcomeFailed e = false)
    (hm : merged es' = []) (hp : ∀ t i m, waitsOn p' ≠ some (.api_send_to_device t i m))
    (hreq : requests es' p' = [x]) (hs : s'.commits = s₁.commits ∨ s'.commits = s₁.commits ++ [x]) :
    Settled s (es ++ es') p' s' ∧
      (s'.commits = s₁.commits ++ [x] → Kept s (es ++ es') p' s') := by
  have hmerged : merged (es ++ es') = [x] := by
    rw [merged, List.filterMap_append, ← merged, ← merged, h.owes, hm, List.append_nil]
  have hrequests : requests (es ++ es') p' = [x] := by
    rw [← hreq]
    simp only [requests, List.map_append, List.filterMap_append, h.unsent, List.nil_append]
  have hshipped : ∀ e ∈ es ++ es', welcomeFailed e = false := by
    intro e he
    rcases List.mem_append.mp he with he | he
    · exact h.shipped e he
    · exact hw e he
  have hkept : s'.commits = s₁.commits ++ [x] → Kept s (es ++ es') p' s' := by
    intro hs'
    exact ⟨[x], by rw [hs', h.commits], hmerged, hshipped, hp, hrequests.symm⟩
  refine ⟨?_, hkept⟩
  rcases hs with hs | hs
  · refine Or.inr ⟨[], x, by rw [hs, h.commits, List.append_nil], hmerged, ?_⟩
    rintro ⟨-, -, hnone⟩
    rw [hrequests] at hnone
    cases hnone
  · exact Or.inl (hkept hs)

theorem settled_commit {room_id : String} {content : Json} {p' : Code (Except CoreError Unit)}
    {s s₁ s' s'' : Served D} {es es' : List (ServedCall D)} (h : Owing s es s₁ (room_id, content))
    (hr : Prog.Runs (Serve X) (Apart others) (send_event room_id "p.mls.commit" content) s₁ es'
      p' s')
    (hend : CallEnds p' s' s'') :
    Settled s (es ++ es') p' s'' ∧ (p' = .done (.ok ()) → Kept s (es ++ es') p' s'') := by
  have hreq : ∀ txn_id, commitRequest (.api_send_event room_id "p.mls.commit" txn_id content) =
      some (room_id, content) := fun _ => rfl
  have hstore : ∀ txn_id l', MayStore (.api_send_event room_id "p.mls.commit" txn_id content)
      s₁.commits l' → l' = s₁.commits ∨ l' = s₁.commits ++ [(room_id, content)] := by
    rintro txn_id l' (hs | ⟨c, hc, hs⟩)
    · exact Or.inl hs
    · rw [hreq] at hc
      cases hc
      exact Or.inr hs
  rcases hr.call_inv with ⟨rfl, rfl, rfl⟩ | ⟨txn_id, s₂, s₃, es₁, htxn, ho, rfl, hr₁⟩
  · cases hend.1
  have hs₃ : s₃.commits = s₁.commits := by rw [ho.2, quiet_stores rfl htxn.2.1]
  rcases hr₁.call_inv with ⟨rfl, rfl, rfl⟩ | ⟨answer, s₄, s₅, es₂, hsend, ho₂, rfl, hr₂⟩
  · -- cancelled while the commit is under way
    refine ⟨(h.sent ?_ rfl ?_ rfl ?_).1, fun h => by cases h⟩
    · intro e he
      rw [List.mem_singleton.mp he]
      rfl
    · intro t i m hw
      cases hw
    · exact hstore txn_id _ (hs₃ ▸ hend.2.2)
  have hs₅ : s₅.commits = s₁.commits ∨ s₅.commits = s₁.commits ++ [(room_id, content)] := by
    rw [ho₂.2]
    exact hstore txn_id _ (hs₃ ▸ hsend.2.1)
  have hquiet : ∀ e ∈ ([⟨s₁, .next_txn_id, txn_id⟩,
      ⟨s₃, .api_send_event room_id "p.mls.commit" txn_id content, answer⟩] : List (ServedCall D)),
      welcomeFailed e = false := by
    intro e he
    rcases List.mem_cons.mp he with rfl | he
    · rfl
    · rw [List.mem_singleton.mp he]
      rfl
  rcases answer with err | event_id
  · obtain ⟨rfl, rfl, rfl⟩ := hr₂.done_inv
    obtain rfl : s'' = s' := hend
    exact ⟨(h.sent hquiet rfl (fun t i m hw => by cases hw) rfl hs₅).1, fun h => by cases h⟩
  · obtain ⟨rfl, rfl, rfl⟩ := hr₂.done_inv
    obtain rfl : s'' = s' := hend
    have hs : s''.commits = s₁.commits ++ [(room_id, content)] := by
      rw [ho₂.2, ← hs₃]
      exact hsend.2.2 _ (hreq txn_id)
    have hwaits : ∀ t i m, waitsOn (.done (.ok ()) : Code (Except CoreError Unit)) ≠
        some (.api_send_to_device t i m) := by
      intro t i m hw
      cases hw
    exact ⟨(h.sent hquiet rfl hwaits rfl hs₅).1, fun _ => (h.sent hquiet rfl hwaits rfl hs₅).2 hs⟩

/-- One device: where it ends well, its commit is with the server. -/
theorem settled_welcome_device {room_id user_id : String} {kp : ClaimedKeyPackage}
    {p' : Code (Except CoreError Unit)} {s s' s'' : Served D} {es : List (ServedCall D)}
    (hr : Prog.Runs (Serve X) (Apart others) (welcome_device room_id user_id kp) s es p' s')
    (hend : CallEnds p' s' s'') :
    Settled s es p' s'' ∧ (p' = .done (.ok ()) → Kept s es p' s'') := by
  rcases hr.call_inv with ⟨rfl, rfl, rfl⟩ | ⟨outcome, s₁, s₂, es₁, hadd, ho₁, rfl, hr₁⟩
  · cases hend.1
  have hs₂ : s₂.commits = s.commits := by
    rcases hadd.2.1 with h | ⟨c, hc, -⟩
    · rw [ho₁.2, h]
    · cases hc
  rcases outcome with e | outcome
  · -- the engine refused: nothing was merged
    obtain ⟨rfl, rfl, rfl⟩ := hr₁.done_inv
    obtain rfl : s'' = s' := hend
    have hkept : Kept s [(⟨s, .add_member room_id kp.key_package_b64, .error e⟩ : ServedCall D)]
        (.done (.error e) : Code (Except CoreError Unit)) s'' := by
      refine ⟨[], by rw [hs₂, List.append_nil], rfl, ?_, ?_, rfl⟩
      · intro e' he'
        rw [List.mem_singleton.mp he']
        rfl
      · intro event_type txn_id messages h
        cases h
    exact ⟨Or.inl hkept, fun _ => hkept⟩
  rcases hr₁.call_inv with ⟨rfl, rfl, rfl⟩ | ⟨txn_id, s₃, s₄, es₂, htxn, ho₂, rfl, hr₂⟩
  · cases hend.1
  have hs₄ : s₄.commits = s.commits := by rw [ho₂.2, quiet_stores rfl htxn.2.1, hs₂]
  rcases hr₂.call_inv with ⟨rfl, rfl, rfl⟩ | ⟨shipped, s₅, s₆, es₃, hship, ho₃, rfl, hr₃⟩
  · -- cancelled while the Welcome is under way
    refine ⟨Or.inr ⟨[], (room_id, commitContent outcome.commit), ?_, rfl, ?_⟩, fun h => by cases h⟩
    · rcases hend.2.2 with h | ⟨c, hc, -⟩
      · rw [h, hs₄, List.append_nil]
      · cases hc
    · rintro ⟨-, h, -⟩
      exact h _ _ _ rfl
  have hs₆ : s₆.commits = s.commits := by
    rcases hship.2.1 with h | ⟨c, hc, -⟩
    · rw [ho₃.2, h, hs₄]
    · cases hc
  rcases shipped with err | ⟨⟩
  · -- the early return: the commit is never sent
    obtain ⟨rfl, rfl, rfl⟩ := hr₃.done_inv
    obtain rfl : s'' = s' := hend
    refine ⟨Or.inr ⟨[], (room_id, commitContent outcome.commit), ?_, rfl, ?_⟩, fun h => by cases h⟩
    · rw [hs₆, List.append_nil]
    · rintro ⟨h, -, -⟩
      have h' := h _ (List.mem_cons_of_mem _ (List.mem_cons_of_mem _ List.mem_cons_self))
      cases h'
  · have howing : Owing s
        [(⟨s, .add_member room_id kp.key_package_b64, .ok outcome⟩ : ServedCall D),
        ⟨s₂, .next_txn_id, txn_id⟩, ⟨s₄, .api_send_to_device "p.mls.welcome" txn_id
          (welcomeMessages user_id kp.device_id room_id outcome.welcome), .ok ()⟩] s₆
        (room_id, commitContent outcome.commit) := by
      refine ⟨hs₆, rfl, ?_, rfl⟩
      intro e he
      simp only [List.mem_cons, List.not_mem_nil, or_false] at he
      rcases he with rfl | rfl | rfl <;> rfl
    exact settled_commit howing hr₃ hend

/-- The loop over the claimed devices. -/
theorem settled_welcome_devices {room_id user_id : String} {claimed : List ClaimedKeyPackage}
    {p' : Code (Except CoreError Unit)} {s s' s'' : Served D} {es : List (ServedCall D)}
    (hr : Prog.Runs (Serve X) (Apart others) (welcome_devices room_id user_id claimed) s es p' s')
    (hend : CallEnds p' s' s'') : Settled s es p' s'' := by
  induction claimed generalizing s es with
  | nil => exact Or.inl (settled_done hr hend)
  | cons kp rest ih =>
    rcases hr.bind_inv with ⟨op, k, hk, rfl⟩ | ⟨r, es₁, es₂, s₁, rfl, h₁, h₂⟩
    · -- the run ends within this device
      exact (settled_welcome_device hk hend).1
    · obtain ⟨hsettled, hkept⟩ := settled_welcome_device h₁ (show CallEnds _ s₁ s₁ from rfl)
      rcases r with e | ⟨⟩
      · obtain ⟨rfl, rfl, rfl⟩ := h₂.done_inv
        obtain rfl : s'' = s' := hend
        rw [List.append_nil]
        exact hsettled
      · exact (hkept rfl).settled (ih h₂)

theorem quiet_claim_devices (user_id : String) (devices : List String)
    (claimed : List ClaimedKeyPackage) :
    (claim_devices user_id devices claimed).All (fun op => op.quiet = true) := by
  induction devices generalizing claimed with
  | nil => trivial
  | cons device_id rest ih =>
    refine ⟨rfl, ?_⟩
    rintro (err | _ | key_package_b64)
    · trivial
    · exact ih claimed
    · exact ih _

theorem quiet_claim_all_devices (user_id : String) :
    (claim_all_devices user_id).All (fun op => op.quiet = true) := by
  refine ⟨rfl, ?_⟩
  rintro (err | devices)
  · trivial
  · exact quiet_claim_devices user_id _ []

theorem settled_welcome_to_group {room_id user_id : String} {p' : Code (Except CoreError Unit)}
    {s s' s'' : Served D} {es : List (ServedCall D)}
    (hr : Prog.Runs (Serve X) (Apart others) (welcome_to_group room_id user_id) s es p' s')
    (hend : CallEnds p' s' s'') : Settled s es p' s'' := by
  have hquiet := quiet_claim_all_devices user_id
  rcases hr.bind_inv with ⟨op, k, hk, rfl⟩ | ⟨r, es₁, es₂, s₁, rfl, h₁, h₂⟩
  · have hkept : Kept s es (.call op k) s'' := kept_quiet_run hk hquiet hend
    exact Or.inl hkept
  · have hkept := kept_quiet_run h₁ hquiet (show CallEnds _ s₁ s₁ from rfl)
    rcases r with e | claimed
    · exact Or.inl (hkept.append (settled_done h₂ hend))
    · exact hkept.settled (settled_welcome_devices h₂ hend)

theorem settled_invite {room_id user_id : String} {p' : Code (Except CoreError Unit)}
    {s s' s'' : Served D} {es : List (ServedCall D)}
    (hr : Prog.Runs (Serve X) (Apart others) (invite room_id user_id) s es p' s')
    (hend : CallEnds p' s' s'') : Settled s es p' s'' := by
  refine settled_call rfl hr hend ?_
  rintro (err | event_id) s₁ es₁ hr₁
  · exact Or.inl (settled_done hr₁ hend)
  refine settled_call rfl hr₁ hend ?_
  rintro (_ | _) s₂ es₂ hr₂
  · exact Or.inl (settled_done hr₂ hend)
  refine settled_call rfl hr₂ hend ?_
  rintro (e | _ | _) s₃ es₃ hr₃
  · exact Or.inl (settled_done hr₃ hend)
  · exact Or.inl (settled_done hr₃ hend)
  · exact settled_welcome_to_group hr₃ hend

end Runs

/-- However an invite ends, with any devices claimed, any answers of the network and
any cancellation: every commit it merged is with the server exactly when no Welcome
failed or was cut off and every commit that was sent arrived. -/
theorem invite_hands_over_its_commits_iff (X : PigeonCrypto D) (others : Client D → Client D → Prop)
    (room_id user_id : String) (c : Client D) (es : List (ServedCall D))
    (p' : Code (Except CoreError Unit)) (s s' : Served D)
    (hr : Prog.Runs (Serve X) (Apart others) (invite room_id user_id) ⟨c, []⟩ es p' s)
    (hend : CallEnds p' s s') : HandedOver es s'.commits ↔ Delivered es p' s'.commits :=
  settled_iff (settled_invite hr hend)

/-! ## A Welcome that does not go out -/

/-- The client when it has added one device. -/
def movedClient : Client Copies :=
  (Client.local_ epochCrypto (.add_member "!room" "kp") memberClient).2

/-- The calls of an invite whose one Welcome meets a dead network. -/
def strandingCalls : List (ServedCall Copies) :=
  [⟨⟨memberClient, []⟩, .api_invite "!room" "@bob:pigeon.example", .ok "$invite"⟩,
    ⟨⟨memberClient, []⟩, .e2ee, true⟩,
    ⟨⟨memberClient, []⟩, .has_group "!room", .ok true⟩,
    ⟨⟨memberClient, []⟩, .api_query_keys "@bob:pigeon.example", .ok (.obj [("BOB1", .null)])⟩,
    ⟨⟨memberClient, []⟩, .api_claim_keys "@bob:pigeon.example" "BOB1", .ok (some "kp")⟩,
    ⟨⟨memberClient, []⟩, .add_member "!room" "kp", .ok ⟨epochText 1 "!room", epochText 0 "!room"⟩⟩,
    ⟨⟨movedClient, []⟩, .next_txn_id, "mob-td-1-0"⟩,
    ⟨⟨movedClient, []⟩, .api_send_to_device "p.mls.welcome" "mob-td-1-0"
      (welcomeMessages "@bob:pigeon.example" "BOB1" "!room" (epochText 1 "!room")),
      .error (.Network "offline")⟩]

/-- A local call of the client, or a request that stores nothing. -/
theorem serve_quiet {op : Op} {c c' : Client D} {r : op.Res} {l : List (String × Json)}
    (h : Client.Exec X op c r c') (hop : commitRequest op = none) :
    Serve X op ⟨c, l⟩ r ⟨c', l⟩ := by
  refine ⟨h, Or.inl rfl, ?_⟩
  cases op <;> try trivial
  case api_send_event room_id event_type txn_id content =>
    rcases r with (_ | _ | _) | _
    · rfl
    · trivial
    · trivial
    · intro c hc
      rw [hop] at hc
      cases hc

theorem stranding_run : Prog.Runs (Serve epochCrypto) (Apart Eq)
    (invite "!room" "@bob:pigeon.example") ⟨memberClient, []⟩ strandingCalls
    (.done (.error (.Network "offline"))) ⟨movedClient, []⟩ := by
  have step : ∀ {op : Op} {k : op.Res → Code (Except CoreError Unit)} {c c' : Client Copies}
      {r : op.Res} {es : List (ServedCall Copies)} {p' : Code (Except CoreError Unit)}
      {s' : Served Copies}, Client.Exec epochCrypto op c r c' → commitRequest op = none →
      Prog.Runs (Serve epochCrypto) (Apart Eq) (k r) ⟨c', []⟩ es p' s' →
      Prog.Runs (Serve epochCrypto) (Apart Eq) (.call op k) ⟨c, []⟩
        (⟨⟨c, []⟩, op, r⟩ :: es) p' s' :=
    fun hx hop hr => Prog.Runs.call (serve_quiet hx hop) ⟨rfl, rfl⟩ hr
  have h1 : Client.Exec epochCrypto (.api_invite "!room" "@bob:pigeon.example") memberClient
      (.ok "$invite") memberClient := ⟨.ok "$invite", rfl⟩
  have h2 : Client.Exec epochCrypto .e2ee memberClient true memberClient := ⟨Fault.none, rfl⟩
  have h3 : Client.Exec epochCrypto (.has_group "!room") memberClient (.ok true) memberClient :=
    ⟨Fault.none, rfl⟩
  have h4 : Client.Exec epochCrypto (.api_query_keys "@bob:pigeon.example") memberClient
      (.ok (.obj [("BOB1", .null)])) memberClient := ⟨.ok (.obj [("BOB1", .null)]), rfl⟩
  have h5 : Client.Exec epochCrypto (.api_claim_keys "@bob:pigeon.example" "BOB1") memberClient
      (.ok (some "kp")) memberClient := ⟨.ok (some "kp"), rfl⟩
  have h6 : Client.Exec epochCrypto (.add_member "!room" "kp") memberClient
      (.ok ⟨epochText 1 "!room", epochText 0 "!room"⟩) movedClient := ⟨Fault.none, rfl⟩
  have h7 : Client.Exec epochCrypto .next_txn_id movedClient "mob-td-1-0" movedClient :=
    ⟨"mob-td-1-0", rfl⟩
  have h8 : Client.Exec epochCrypto (.api_send_to_device "p.mls.welcome" "mob-td-1-0"
      (welcomeMessages "@bob:pigeon.example" "BOB1" "!room" (epochText 1 "!room"))) movedClient
      (.error (.Network "offline")) movedClient := ⟨.error (.Network "offline"), rfl⟩
  exact step h1 rfl (step h2 rfl (step h3 rfl (step h4 rfl (step h5 rfl (step h6 rfl
    (step h7 rfl (step h8 rfl (Prog.Runs.refl _ _))))))))

theorem invite_hands_over_its_commits_iff_stranding :
    HandedOver strandingCalls [] ↔
      Delivered strandingCalls (.done (.error (.Network "offline")) : Code (Except CoreError Unit))
        [] :=
  invite_hands_over_its_commits_iff epochCrypto Eq "!room" "@bob:pigeon.example" memberClient
    strandingCalls _ ⟨movedClient, []⟩ ⟨movedClient, []⟩ stranding_run rfl

/-- A commit that was merged is not handed over: our copy is at epoch 1, and the server has no
commit. -/
theorem an_invite_strands_the_group :
    ¬ ∀ (es : List (ServedCall Copies)) (p' : Code (Except CoreError Unit)) (s s' : Served Copies),
      Prog.Runs (Serve epochCrypto) (Apart Eq) (invite "!room" "@bob:pigeon.example")
        ⟨memberClient, []⟩ es p' s → CallEnds p' s s' → HandedOver es s'.commits := by
  intro h
  have hlen := (h _ _ _ _ stranding_run rfl).length_le
  have hone : (merged strandingCalls).length = 1 := rfl
  rw [hone] at hlen
  exact absurd hlen (by decide)

end PigeonMobile

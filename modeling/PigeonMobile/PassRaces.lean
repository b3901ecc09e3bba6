-- Passes that race, call by call. A pass that has asked the engine about an event writes its
-- mark next, and in between any number of other passes may make their calls. What a message
-- was decrypted to is held by the pass that read it until it is cached.
import PigeonMobile.SteadyKeys

namespace PigeonMobile

variable {D : Type} {X : PigeonCrypto D}

/-! ## What the passes record -/

/-- The client, and for each pass the message that it has decrypted and not cached yet. -/
structure Racing (ι D : Type) where
  client : Client D
  held : ι → Option (String × String)

def holding {ι : Type} [DecidableEq ι] (i : ι) (held : ι → Option (String × String)) :
    (op : Op) → op.Res → (ι → Option (String × String))
  | .decrypt room ct, .ok _ => Function.update held i (some (room, ct))
  | .set_decrypted _ _, _ => Function.update held i none
  | _, _ => held

/-- A call of a pass, recorded. -/
def RaceCall {ι : Type} [DecidableEq ι] (X : PigeonCrypto D) (i : ι) (op : Op) (w : Racing ι D)
    (r : op.Res) (w' : Racing ι D) : Prop :=
  PassCall X i op w.client r w'.client ∧ w'.held = holding i w.held op r

/-- The rows of one event, which differ in how it was decrypted. -/
def SameEvent (r₀ r : EventRow) : Prop :=
  r = { r₀ with decrypted := r.decrypted, decrypt_state := r.decrypt_state }

theorem sameEvent_mark {r₀ r : EventRow} (h : SameEvent r₀ r) (mark : Mark) :
    SameEvent r₀ (mark.row r) := by
  unfold SameEvent at h ⊢
  rw [h]
  cases mark <;> rfl

section Races

variable {ι : Type} (M : RatchetModel X) (c₀ : Client D) (items : List PendingMls)

/-- The events that a pass still has before it: the keys have passed every other one. -/
structure Ahead (rest : List PendingMls) (c : Client D) : Prop where
  sub : rest.Sublist items
  passed : ∀ x ∈ items, x ∉ rest → Passed M (M.keysOf c₀) items (M.keysOf c) x

/-- The plaintext of the message is cached. -/
def CachedIn (c : Client D) (m : PendingDecrypt) : Prop :=
  ∃ r, c.store.events.find m.event_id = some r ∧
    r.decrypted = some (M.plaintext m.room_id m.ciphertext_b64)

/-- What holds while passes race. A message that a single pass reads is cached as soon as it
is read, or a pass is about to cache it. -/
structure Races (w : Racing ι D) : Prop where
  session : w.client.session = c₀.session
  engine : ∃ d, w.client.e2ee = some d
  steady : Steady M (M.keysOf c₀) items (M.keysOf w.client)
  pending : ∃ rest, w.client.store.pending_mls = .ok rest ∧ Ahead M c₀ items rest w.client
  rows : ∀ id r₀, c₀.store.events.find id = some r₀ →
    ∃ r, w.client.store.events.find id = some r ∧ SameEvent r₀ r
  texts : ∀ pre m, M.ReadsAfter (M.keysOf c₀) items pre m →
    (M.keysOf w.client).spent m.room_id m.ciphertext_b64 = true →
      CachedIn M w.client m ∨ ∃ i, w.held i = some (m.room_id, m.ciphertext_b64)

/-- Each pass relies on the others to leave what it holds alone. The keys only move on. -/
def raceContract : Contract ι (Racing ι D) where
  inv := Races M c₀ items
  rely i w w' := w'.held i = w.held i ∧ (M.keysOf w.client).Le (M.keysOf w'.client)
  give i w w' := (∀ j, i ≠ j → w'.held j = w.held j) ∧
    (M.keysOf w.client).Le (M.keysOf w'.client)
  refl _ _ := ⟨rfl, Keys.Le.refl _⟩
  trans _ _ _ _ h h' := ⟨h'.1.trans h.1, h.2.trans h'.2⟩
  frame _ j _ _ hij h := ⟨h.1 j hij, h.2⟩

/-- A pass that holds nothing and has `rest` before it. -/
structure Ready (i : ι) (rest : List PendingMls) (w : Racing ι D) : Prop where
  held : w.held i = none
  ahead : Ahead M c₀ items rest w.client

variable {M c₀ items}

theorem Ahead.mono {rest : List PendingMls} {c c' : Client D} (h : Ahead M c₀ items rest c)
    (hle : (M.keysOf c).Le (M.keysOf c')) : Ahead M c₀ items rest c' :=
  ⟨h.sub, fun x hx hnot => (h.passed x hx hnot).mono hle⟩

theorem Ready.rely {w w' : Racing ι D} {i : ι} {rest : List PendingMls}
    (h : Ready M c₀ items i rest w)
    (hrely : (raceContract M c₀ items).rely i w w') : Ready M c₀ items i rest w' :=
  ⟨hrely.1.trans h.held, h.ahead.mono hrely.2⟩

theorem keysOf_engine {c : Client D} {d : D} (h : c.e2ee = some d) : M.keysOf c = M.keys d := by
  unfold RatchetModel.keysOf
  rw [h]

/-- The events before the next one of a pass are not ahead of it. -/
theorem before_next {pre post rest : List PendingMls} {x : PendingMls}
    (hnodup : (pre ++ x :: post).Nodup) (hsub : (x :: rest).Sublist (pre ++ x :: post)) :
    rest.Sublist post ∧ ∀ y ∈ pre, y ∉ x :: rest := by
  induction pre with
  | nil =>
    rw [List.nil_append] at hsub
    exact ⟨List.cons_sublist_cons.mp hsub, fun y hy => absurd hy List.not_mem_nil⟩
  | cons a pre ih =>
    rw [List.cons_append, List.nodup_cons] at hnodup
    have hne : x ≠ a := by
      rintro rfl
      exact hnodup.1 (List.mem_append_right _ List.mem_cons_self)
    rw [List.cons_append] at hsub
    have hsub' : (x :: rest).Sublist (pre ++ x :: post) := by
      cases hsub with
      | cons _ h => exact h
      | cons_cons _ h => exact absurd rfl hne
    obtain ⟨hrest, hpre⟩ := ih hnodup.2 hsub'
    refine ⟨hrest, ?_⟩
    intro y hy
    rcases List.mem_cons.mp hy with rfl | hy
    · intro hin
      exact hnodup.1 (hsub'.subset hin)
    · exact hpre y hy

/-- The next event of a pass, with what is passed before it. -/
theorem Ahead.next {rest : List PendingMls} {x : PendingMls} {c : Client D}
    (h : Ahead M c₀ items (x :: rest) c) (hnodup : items.Nodup) :
    ∃ pre post, items = pre ++ x :: post ∧
      ∀ y ∈ pre, Passed M (M.keysOf c₀) items (M.keysOf c) y := by
  obtain ⟨pre, post, heq⟩ := List.append_of_mem (h.sub.subset List.mem_cons_self)
  refine ⟨pre, post, heq, ?_⟩
  have hsub := h.sub
  rw [heq] at hsub hnodup
  intro y hy
  apply h.passed y
  · rw [heq]
    exact List.mem_append_left _ hy
  · exact (before_next hnodup hsub).2 y hy

/-- A pass that is through with an event. -/
theorem Ahead.tail {rest : List PendingMls} {x : PendingMls} {c c' : Client D}
    (h : Ahead M c₀ items (x :: rest) c) (hle : (M.keysOf c).Le (M.keysOf c'))
    (hpassed : Passed M (M.keysOf c₀) items (M.keysOf c') x) : Ahead M c₀ items rest c' := by
  refine ⟨(List.sublist_cons_self x rest).trans h.sub, ?_⟩
  intro y hy hnot
  by_cases hyx : y = x
  · rw [hyx]
    exact hpassed
  · apply (h.passed y hy _).mono hle
    rw [List.mem_cons, not_or]
    exact ⟨hyx, hnot⟩

/-- Keys that an event has moved have passed it. -/
theorem passed_next {k : Keys} {pre post : List PendingMls} {x : PendingMls} (hnodup : items.Nodup)
    (hs : Steady M (M.keysOf c₀) items k) (heq : items = pre ++ x :: post)
    (hpassed : ∀ y ∈ pre, Passed M (M.keysOf c₀) items k y) :
    Passed M (M.keysOf c₀) items (M.next k x) x := by
  intro pre' post' heq'
  have hsame : pre' = pre := by
    rw [heq] at heq' hnodup
    rcases place_cases heq' with hin | hin | ⟨hpre, -⟩
    · exfalso
      rw [heq', List.nodup_append] at hnodup
      exact hnodup.2.2 x hin x List.mem_cons_self rfl
    · exfalso
      rw [List.nodup_append] at hnodup
      exact hnodup.2.2 x hin x List.mem_cons_self rfl
    · exact hpre.symm
  rw [hsame]
  exact hs.le_next heq (le_of_passed hs.start heq hpassed)

/-! ## The calls of a pass -/

variable {from_str : String → Option Json} {w w' : Racing ι D}

/-- The engine of a pass has each group that the first engine has. -/
theorem Races.engine_of_group (h : Races M c₀ items w) {room_id : String}
    (hgroup : ((M.keysOf c₀).epoch room_id).isSome) :
    ∃ d, w.client.e2ee = some d ∧ M.keysOf w.client = M.keys d ∧
      ((M.keys d).epoch room_id).isSome ∧ X.load_group d room_id = true := by
  obtain ⟨d, hd⟩ := h.engine
  have hkeys : M.keysOf w.client = M.keys d := keysOf_engine hd
  have hheld : ((M.keys d).epoch room_id).isSome := by
    rw [← hkeys, h.steady.start.held]
    exact hgroup
  exact ⟨d, hd, hkeys, hheld, (M.load_group d room_id).trans hheld⟩

/-- The engine takes the next event of a pass. -/
theorem Races.engine_call (horder : OrderedStream M from_str (M.keysOf c₀) items)
    (hnodup : items.Nodup) (h : Races M c₀ items w) {rest : List PendingMls} {x : PendingMls}
    (hahead : Ahead M c₀ items (x :: rest) w.client)
    (hsession : w'.client.session = w.client.session) (hstore : w'.client.store = w.client.store)
    (hengine : ∃ d, w'.client.e2ee = some d)
    (hkeys : M.keysOf w'.client = M.next (M.keysOf w.client) x)
    (hheld : ∀ key i, w.held i = some key → w'.held i = some key)
    (hnew : ∀ room ct, (M.keysOf w'.client).spent room ct = true →
      (M.keysOf w.client).spent room ct = true ∨ ∃ i, w'.held i = some (room, ct)) :
    Races M c₀ items w' ∧ Passed M (M.keysOf c₀) items (M.keysOf w'.client) x := by
  obtain ⟨pre, post, heq, hbefore⟩ := hahead.next hnodup
  have hle : (M.keysOf w.client).Le (M.keysOf w'.client) := by
    rw [hkeys]
    exact RatchetModel.le_next _ x
  have hpassed : Passed M (M.keysOf c₀) items (M.keysOf w'.client) x := by
    rw [hkeys]
    exact passed_next hnodup h.steady heq hbefore
  refine ⟨⟨hsession.trans h.session, hengine, ?_, ?_, ?_, ?_⟩, hpassed⟩
  · rw [hkeys]
    exact h.steady.next horder heq hbefore
  · obtain ⟨left, hpending, hleft⟩ := h.pending
    rw [hstore]
    exact ⟨left, hpending, hleft.mono hle⟩
  · rw [hstore]
    exact h.rows
  · intro pre' m hread hspent
    rcases hnew _ _ hspent with hold | hnow
    · rcases h.texts pre' m hread hold with hcached | ⟨i, hi⟩
      · left
        unfold CachedIn at hcached ⊢
        rw [hstore]
        exact hcached
      · exact Or.inr ⟨i, hheld _ i hi⟩
    · exact Or.inr hnow

/-- A mark that a pass gives to the event: a plaintext is that of its message. -/
def Suits (M : RatchetModel X) : Mark → PendingMls → Prop
  | .text plaintext, .Message m => plaintext = M.plaintext m.room_id m.ciphertext_b64
  | .text _, .Commit _ => False
  | _, _ => True

/-- The store takes the mark of an event. -/
theorem Races.write (hp : c₀.store.pending_mls = .ok items) (h : Races M c₀ items w)
    {x : PendingMls} (hx : x ∈ items) {mark : Mark} (hsuits : Suits M mark x)
    (hpassed : Passed M (M.keysOf c₀) items (M.keysOf w.client) x)
    (hclient : w'.client = { w.client with store := mark.write x.event_id w.client.store })
    (hheld : ∀ pre m, M.ReadsAfter (M.keysOf c₀) items pre m → ∀ i,
      w.held i = some (m.room_id, m.ciphertext_b64) →
        w'.held i = some (m.room_id, m.ciphertext_b64) ∨
          (x = .Message m ∧ ∃ plaintext, mark = .text plaintext)) : Races M c₀ items w' := by
  have hids := Store.pending_nodup hp
  have hkeys : M.keysOf w'.client = M.keysOf w.client := by
    rw [hclient]
    rfl
  have hfind : ∀ id, w'.client.store.events.find id = (w.client.store.events.find id).map
      (fun r => if id = x.event_id then mark.row r else r) := by
    intro id
    rw [hclient]
    exact mark.find_write x.event_id id w.client.store
  refine ⟨?_, ?_, ?_, ?_, ?_, ?_⟩
  · rw [hclient]
    exact h.session
  · rw [hclient]
    exact h.engine
  · rw [hkeys]
    exact h.steady
  · obtain ⟨left, hpending, hleft⟩ := h.pending
    have hafter := Store.pending_mls_write hpending mark x.event_id
    refine ⟨left.filter (fun item => decide (item.event_id ≠ x.event_id)), ?_, ?_, ?_⟩
    · rw [hclient]
      exact hafter
    · exact List.filter_sublist.trans hleft.sub
    · intro y hy hnot
      rw [hkeys]
      by_cases hin : y ∈ left
      · have hsame : y.event_id = x.event_id := by
          by_contra hne
          exact hnot (List.mem_filter.mpr ⟨hin, decide_eq_true hne⟩)
        obtain rfl : y = x := List.inj_on_of_nodup_map hids hy hx hsame
        exact hpassed
      · exact hleft.passed y hy hin
  · intro id r₀ hr₀
    obtain ⟨r, hr, hsame⟩ := h.rows id r₀ hr₀
    refine ⟨if id = x.event_id then mark.row r else r, ?_, ?_⟩
    · rw [hfind, hr, Option.map_some]
    · split
      · exact sameEvent_mark hsame mark
      · exact hsame
  · intro pre m hread hspent
    have hm : PendingMls.Message m ∈ items := by
      obtain ⟨post, heq⟩ := hread.1
      rw [heq]
      exact List.mem_append_right _ List.mem_cons_self
    -- what the mark makes of a row of the message
    have hrow : ∀ r, w.client.store.events.find m.event_id = some r →
        (r.decrypted = some (M.plaintext m.room_id m.ciphertext_b64) ∨
          (x = .Message m ∧ ∃ plaintext, mark = .text plaintext)) → CachedIn M w'.client m := by
      intro r hr hor
      refine ⟨if m.event_id = x.event_id then mark.row r else r, ?_, ?_⟩
      · rw [hfind, hr, Option.map_some]
      · by_cases hid : m.event_id = x.event_id
        · obtain rfl : PendingMls.Message m = x := List.inj_on_of_nodup_map hids hm hx hid
          rw [if_pos hid]
          cases mark with
          | text plaintext =>
            have hplain : plaintext = M.plaintext m.room_id m.ciphertext_b64 := hsuits
            rw [hplain]
            rfl
          | processed =>
            rcases hor with hold | ⟨-, p, hp⟩
            · exact hold
            · cases hp
          | failed =>
            rcases hor with hold | ⟨-, p, hp⟩
            · exact hold
            · cases hp
        · rw [if_neg hid]
          rcases hor with hold | ⟨rfl, -⟩
          · exact hold
          · exact absurd rfl hid
    rw [hkeys] at hspent
    rcases h.texts pre m hread hspent with ⟨r, hr, hdec⟩ | ⟨i, hi⟩
    · exact Or.inl (hrow r hr (Or.inl hdec))
    · rcases hheld pre m hread i hi with hstill | htext
      · exact Or.inr ⟨i, hstill⟩
      · obtain ⟨r₀, hr₀, -⟩ := waiting_row hp hm
        obtain ⟨r, hr, -⟩ := h.rows _ r₀ hr₀
        exact Or.inl (hrow r hr (Or.inr htext))

/-! ## The program of a pass -/

variable [DecidableEq ι]

/-- A program that races with others. -/
abbrev RaceSafe {α : Type} (X : PigeonCrypto D) (M : RatchetModel X) (c₀ : Client D)
    (items : List PendingMls) (i : ι) (Q : α → Racing ι D → Prop) (p : Code α)
    (w : Racing ι D) : Prop :=
  Safe (raceContract M c₀ items) (RaceCall X) i Q p w

section Program

variable {α : Type} {i : ι} {Q : α → Racing ι D → Prop}

/-- A call that reads. -/
theorem race_read {op : Op} {k : op.Res → Code α}
    (hread : ∀ c, (∃ d, c.e2ee = some d) → (Client.local_ X op c).2 = c)
    (hholds : ∀ held r, holding i held op r = held)
    (hk : ∀ w₁, (raceContract M c₀ items).rely i w w₁ → Races M c₀ items w₁ →
      RaceSafe X M c₀ items i Q (k (Client.local_ X op w₁.client).1) w₁) :
    RaceSafe X M c₀ items i Q (.call op k) w := by
  intro w₁ hrely hinv r w₂ hcall
  obtain ⟨hlocal, hheld⟩ := hcall
  have hclient : w₂.client = w₁.client := by
    have h := hread w₁.client hinv.engine
    unfold PassCall at hlocal
    rw [hlocal] at h
    exact h
  have hsame : w₂ = w₁ := by
    rw [hholds] at hheld
    cases w₂
    cases w₁
    cases hclient
    cases hheld
    rfl
  have hr : (Client.local_ X op w₁.client).1 = r := congrArg Prod.fst hlocal
  subst hsame
  refine ⟨hinv, (raceContract M c₀ items).refl i _ |> fun h => ⟨fun _ _ => rfl, h.2⟩, ?_⟩
  have hrest := hk _ hrely hinv
  rw [hr] at hrest
  exact hrest

/-- A pass that has asked the engine about `x`, and writes `mark` next. -/
structure Settling (M : RatchetModel X) (c₀ : Client D) (items : List PendingMls) (i : ι)
    (x : PendingMls) (mark : Mark) (rest : List PendingMls) (w : Racing ι D) : Prop where
  ahead : Ahead M c₀ items rest w.client
  passed : Passed M (M.keysOf c₀) items (M.keysOf w.client) x
  free : (∃ plaintext, mark = .text plaintext) ∨ w.held i = none
  own : ∀ pre m, M.ReadsAfter (M.keysOf c₀) items pre m →
    w.held i = some (m.room_id, m.ciphertext_b64) → x = .Message m

omit [DecidableEq ι] in
theorem Settling.rely {x : PendingMls} {mark : Mark} {rest : List PendingMls}
    (h : Settling M c₀ items i x mark rest w) (hrely : (raceContract M c₀ items).rely i w w') :
    Settling M c₀ items i x mark rest w' := by
  refine ⟨h.ahead.mono hrely.2, h.passed.mono hrely.2, ?_, ?_⟩
  · rw [hrely.1]
    exact h.free
  · rw [hrely.1]
    exact h.own

/-- The write of a mark. -/
theorem race_write (hp : c₀.store.pending_mls = .ok items) {x : PendingMls} {rest : List PendingMls}
    (hx : x ∈ items) {mark : Mark} (hsuits : Suits M mark x) {op : Op} {k : op.Res → Code α}
    {answer : op.Res}
    (hlocal : ∀ c, Client.local_ X op c =
      (answer, { c with store := mark.write x.event_id c.store }))
    (hothers : ∀ held j, i ≠ j → holding i held op answer j = held j)
    (hfree : ∀ held, (∃ plaintext, mark = .text plaintext) ∨ held i = none →
      holding i held op answer i = none)
    (hsettling : Settling M c₀ items i x mark rest w)
    (hk : ∀ w', Ready M c₀ items i rest w' → RaceSafe X M c₀ items i Q (k answer) w') :
    RaceSafe X M c₀ items i Q (.call op k) w := by
  intro w₁ hrely hinv r w₂ hcall
  obtain ⟨hpass, hheld⟩ := hcall
  unfold PassCall at hpass
  rw [hlocal] at hpass
  obtain ⟨rfl, hclient⟩ := Prod.mk.inj hpass
  have h₁ := hsettling.rely hrely
  have hkeys : M.keysOf w₂.client = M.keysOf w₁.client := by
    rw [← hclient]
    rfl
  have hle : (M.keysOf w₁.client).Le (M.keysOf w₂.client) := by
    rw [hkeys]
    exact Keys.Le.refl _
  refine ⟨hinv.write hp hx hsuits h₁.passed hclient.symm ?_, ⟨?_, hle⟩,
    hk w₂ ⟨?_, h₁.ahead.mono hle⟩⟩
  · intro pre m hread j hj
    by_cases hij : i = j
    · subst hij
      rcases h₁.free with htext | hnone
      · exact Or.inr ⟨h₁.own pre m hread hj, htext⟩
      · rw [hnone] at hj
        cases hj
    · left
      rw [hheld, hothers _ j hij]
      exact hj
  · intro j hij
    rw [hheld, hothers _ j hij]
  · rw [hheld]
    exact hfree _ h₁.free

omit [DecidableEq ι] in
/-- An event of a group that is not held: its pass goes on to the next one. -/
theorem ready_skip {rest : List PendingMls} (hnodup : items.Nodup) {x : PendingMls}
    (hinv : Races M c₀ items w)
    (hready : Ready M c₀ items i (x :: rest) w) (hgroup : (M.keysOf c₀).epoch x.room_id = none) :
    Ready M c₀ items i rest w := by
  obtain ⟨pre, post, heq, hbefore⟩ := hready.ahead.next hnodup
  have hnone : (M.keysOf w.client).epoch x.room_id = none := by
    have hheld := hinv.steady.start.held x.room_id
    rw [hgroup] at hheld
    simpa using hheld
  have hpassed := passed_next hnodup hinv.steady heq hbefore
  rw [RatchetModel.next_not_held hnone] at hpassed
  exact ⟨hready.held, hready.ahead.tail (Keys.Le.refl _) hpassed⟩

/-- The group of an event is looked up. -/
theorem race_has_group {rest : List PendingMls} (hnodup : items.Nodup) {x : PendingMls}
    {k : (Op.has_group x.room_id).Res → Code α}
    (hready : Ready M c₀ items i (x :: rest) w)
    (hno : ∀ w', Ready M c₀ items i rest w' → RaceSafe X M c₀ items i Q (k (.ok false)) w')
    (hyes : ∀ w', ((M.keysOf c₀).epoch x.room_id).isSome → Ready M c₀ items i (x :: rest) w' →
      RaceSafe X M c₀ items i Q (k (.ok true)) w') :
    RaceSafe X M c₀ items i Q (.call (.has_group x.room_id) k) w := by
  apply race_read
  · rintro c ⟨d, hd⟩
    rw [Client.local_has_group X hd]
  · exact fun _ _ => rfl
  · intro w₁ hrely hinv
    have h₁ := hready.rely hrely
    obtain ⟨d, hd⟩ := hinv.engine
    have hheld : X.load_group d x.room_id = ((M.keysOf c₀).epoch x.room_id).isSome := by
      rw [M.load_group, ← hinv.steady.start.held, keysOf_engine hd]
    rw [Client.local_has_group X hd, hheld]
    cases hgroup : (M.keysOf c₀).epoch x.room_id with
    | none => exact hno w₁ (ready_skip hnodup hinv h₁ hgroup)
    | some e => exact hyes w₁ (by rw [hgroup]; rfl) h₁

section Engine

variable {rest : List PendingMls} (horder : OrderedStream M from_str (M.keysOf c₀) items)
  (hnodup : items.Nodup)

include horder hnodup

omit [DecidableEq ι] in
/-- An engine call on the event of a pass that reads no message: the pass marks it next. -/
theorem Ready.settles {x : PendingMls} (hready : Ready M c₀ items i (x :: rest) w)
    (hinv : Races M c₀ items w) (hsession : w'.client.session = w.client.session)
    (hstore : w'.client.store = w.client.store) (hengine : ∃ d, w'.client.e2ee = some d)
    (hheld : w'.held = w.held) (hkeys : M.keysOf w'.client = M.next (M.keysOf w.client) x)
    (hspent : (M.keysOf w'.client).spent = (M.keysOf w.client).spent) (mark : Mark) :
    Races M c₀ items w' ∧ (raceContract M c₀ items).give i w w' ∧
      Settling M c₀ items i x mark rest w' := by
  have hle : (M.keysOf w.client).Le (M.keysOf w'.client) := by
    rw [hkeys]
    exact RatchetModel.le_next _ x
  obtain ⟨hinv', hpassed⟩ : Races M c₀ items w' ∧
      Passed M (M.keysOf c₀) items (M.keysOf w'.client) x := by
    apply hinv.engine_call horder hnodup hready.ahead hsession hstore hengine hkeys
    · intro key j hj
      rw [hheld]
      exact hj
    · intro room ct hs
      rw [hspent] at hs
      exact Or.inl hs
  refine ⟨hinv', ⟨fun j _ => by rw [hheld], hle⟩, hready.ahead.tail hle hpassed, hpassed, ?_, ?_⟩
  · right
    rw [hheld]
    exact hready.held
  · intro pre m _ hm
    rw [hheld, hready.held] at hm
    cases hm

/-- A commit is given to the engine. -/
theorem race_commit {c : PendingCommit}
    {k : (Op.process_commit c.room_id c.commit_b64).Res → Code α}
    (hready : Ready M c₀ items i (.Commit c :: rest) w)
    (hgroup : ((M.keysOf c₀).epoch c.room_id).isSome)
    (hk : ∀ r w', Settling M c₀ items i (.Commit c) .processed rest w' →
      RaceSafe X M c₀ items i Q (k r) w') :
    RaceSafe X M c₀ items i Q (.call (.process_commit c.room_id c.commit_b64) k) w := by
  intro w₁ hrely hinv r w₂ hcall
  obtain ⟨hpass, hheld⟩ := hcall
  have hheld : w₂.held = w₁.held := hheld
  have h₁ := hready.rely hrely
  obtain ⟨d, hd, hkeys₁, hgroup₁, hg⟩ := hinv.engine_of_group hgroup
  obtain ⟨answer, hlocal⟩ := Client.local_process_commit X hd hg c.commit_b64
  have hclient : w₁.client.holdMoved X (X.process_commit d c.room_id c.commit_b64).toOption =
      w₂.client := (Prod.mk.inj (hlocal.symm.trans hpass)).2
  have hkeys₂ : M.keysOf w₂.client = M.next (M.keysOf w₁.client) (.Commit c) := by
    have hcommit := RatchetModel.commit_keys M (c := c) hgroup₁
    rw [hkeys₁, ← hcommit, ← hclient]
    cases X.process_commit d c.room_id c.commit_b64 with
    | error reason => exact hkeys₁
    | ok d' => rfl
  have hspent : (M.keysOf w₂.client).spent = (M.keysOf w₁.client).spent := by
    rw [hkeys₂]
    simp only [RatchetModel.next]
    split <;> rfl
  obtain ⟨hinv₂, hgive, hsettling⟩ : Races M c₀ items w₂ ∧
      (raceContract M c₀ items).give i w₁ w₂ ∧
      Settling M c₀ items i (.Commit c) .processed rest w₂ := by
    apply h₁.settles horder hnodup hinv _ _ _ hheld hkeys₂ hspent
    · rw [← hclient]
      cases X.process_commit d c.room_id c.commit_b64 <;> rfl
    · rw [← hclient]
      cases X.process_commit d c.room_id c.commit_b64 <;> rfl
    · rw [← hclient]
      cases X.process_commit d c.room_id c.commit_b64 with
      | error reason => exact ⟨d, hd⟩
      | ok d' => exact ⟨d', rfl⟩
  exact ⟨hinv₂, hgive, hk r w₂ hsettling⟩

/-- A message is given to the engine: it is read, or the keys stay as they are. -/
theorem race_decrypt {m : PendingDecrypt} {k : (Op.decrypt m.room_id m.ciphertext_b64).Res → Code α}
    (hready : Ready M c₀ items i (.Message m :: rest) w)
    (hgroup : ((M.keysOf c₀).epoch m.room_id).isSome)
    (hok : ∀ w', Settling M c₀ items i (.Message m)
      (.text (M.plaintext m.room_id m.ciphertext_b64)) rest w' →
        RaceSafe X M c₀ items i Q (k (.ok (M.plaintext m.room_id m.ciphertext_b64))) w')
    (herr : ∀ e w', Settling M c₀ items i (.Message m) .failed rest w' →
      RaceSafe X M c₀ items i Q (k (.error e)) w') :
    RaceSafe X M c₀ items i Q (.call (.decrypt m.room_id m.ciphertext_b64) k) w := by
  intro w₁ hrely hinv r w₂ hcall
  obtain ⟨hpass, hheld⟩ := hcall
  have h₁ := hready.rely hrely
  obtain ⟨d, hd, hkeys₁, hgroup₁, hg⟩ := hinv.engine_of_group hgroup
  obtain ⟨pre, post, heq, hbefore⟩ := h₁.ahead.next hnodup
  have hlocal := Client.local_decrypt X hd hg m.ciphertext_b64
  rcases RatchetModel.decrypt_keys M (m := m) hgroup₁ with ⟨hreads, d', hx, hspend⟩ |
    ⟨hreads, reason, hx⟩
  · -- this pass is the one that reads it
    have hclient : r = .ok (M.plaintext m.room_id m.ciphertext_b64) ∧
        w₂.client = w₁.client.hold X d' := by
      rcases hlocal with ⟨d₁, p₁, hx₁, hl⟩ | ⟨d₁, e₁, hx₁, hl⟩ | ⟨reason₁, e₁, hx₁, hl⟩
      · rw [hx] at hx₁
        cases hx₁
        obtain ⟨hr, hc⟩ := Prod.mk.inj (hl.symm.trans hpass)
        exact ⟨hr.symm, hc.symm⟩
      · rw [hx] at hx₁
        cases hx₁
      · rw [hx] at hx₁
        cases hx₁
    obtain ⟨rfl, hclient⟩ := hclient
    have hheld : w₂.held = Function.update w₁.held i (some (m.room_id, m.ciphertext_b64)) := hheld
    have hkeys₂ : M.keysOf w₂.client = M.next (M.keysOf w₁.client) (.Message m) := by
      rw [hclient, hkeys₁]
      simp only [RatchetModel.next, hreads, if_true]
      exact hspend
    have hle : (M.keysOf w₁.client).Le (M.keysOf w₂.client) := by
      rw [hkeys₂]
      exact RatchetModel.le_next _ _
    obtain ⟨hinv₂, hpassed⟩ : Races M c₀ items w₂ ∧
        Passed M (M.keysOf c₀) items (M.keysOf w₂.client) (.Message m) := by
      apply hinv.engine_call horder hnodup h₁.ahead _ _ _ hkeys₂
      · intro key j hj
        by_cases hji : j = i
        · rw [hji, h₁.held] at hj
          cases hj
        · rw [hheld, Function.update_of_ne hji]
          exact hj
      · intro room ct hs
        rw [hkeys₂, hkeys₁] at hs
        simp only [RatchetModel.next, hreads, if_true] at hs
        by_cases hkey : room = m.room_id ∧ ct = m.ciphertext_b64
        · obtain ⟨rfl, rfl⟩ := hkey
          right
          refine ⟨i, ?_⟩
          rw [hheld, Function.update_self]
        · left
          rw [hkeys₁]
          simpa [Keys.spend, hkey] using hs
      · rw [hclient]
        rfl
      · rw [hclient]
        rfl
      · rw [hclient]
        exact ⟨d', rfl⟩
    refine ⟨hinv₂, ⟨?_, hle⟩, hok w₂ ⟨h₁.ahead.tail hle hpassed, hpassed, Or.inl ⟨_, rfl⟩, ?_⟩⟩
    · intro j hij
      rw [hheld, Function.update_of_ne (Ne.symm hij)]
    · intro pre' m' hread hm'
      rw [hheld, Function.update_self] at hm'
      obtain ⟨hroom, hct⟩ := Prod.mk.inj (Option.some.inj hm')
      rw [← hkeys₁] at hreads
      rw [reader_is_own horder heq hbefore hreads hread hroom.symm hct.symm]
  · -- somebody else has read it, or it is of another epoch
    have hclient : (∃ e, r = .error e) ∧ w₂.client = w₁.client := by
      rcases hlocal with ⟨d₁, p₁, hx₁, hl⟩ | ⟨d₁, e₁, hx₁, hl⟩ | ⟨reason₁, e₁, hx₁, hl⟩
      · rw [hx] at hx₁
        cases hx₁
      · rw [hx] at hx₁
        cases hx₁
      · obtain ⟨hr, hc⟩ := Prod.mk.inj (hl.symm.trans hpass)
        exact ⟨⟨e₁, hr.symm⟩, hc.symm⟩
    obtain ⟨⟨e, rfl⟩, hclient⟩ := hclient
    have hheld : w₂.held = w₁.held := hheld
    have hkeys₂ : M.keysOf w₂.client = M.next (M.keysOf w₁.client) (.Message m) := by
      rw [hclient, hkeys₁]
      simp only [RatchetModel.next, hreads, if_false]
    have hspent : (M.keysOf w₂.client).spent = (M.keysOf w₁.client).spent := by rw [hclient]
    obtain ⟨hinv₂, hgive, hsettling⟩ := h₁.settles horder hnodup hinv (by rw [hclient])
      (by rw [hclient]) ⟨d, by rw [hclient]; exact hd⟩ hheld hkeys₂ hspent .failed
    exact ⟨hinv₂, hgive, herr e w₂ hsettling⟩

end Engine

theorem race_mark_processed {rest : List PendingMls} (hp : c₀.store.pending_mls = .ok items)
    {c : PendingCommit} (hin : .Commit c ∈ items)
    (h : Settling M c₀ items i (.Commit c) .processed rest w) :
    RaceSafe X M c₀ items i (fun r w' => (∃ b, r = .ok b) ∧ Ready M c₀ items i rest w')
      (mark_processed c.event_id) w := by
  have hsuits : Suits M .processed (.Commit c) := trivial
  refine race_write hp hin hsuits (fun _ => rfl) (fun _ _ _ => rfl) ?_ h ?_
  · rintro held (⟨p, hp⟩ | hnone)
    · cases hp
    · exact hnone
  · exact fun w' hw' => ⟨⟨true, rfl⟩, hw'⟩

section Pass

variable {rest : List PendingMls} (horder : OrderedStream M from_str (M.keysOf c₀) items)
  (hp : c₀.store.pending_mls = .ok items)
  (hothers : ∀ x ∈ items, x.sender ≠ c₀.session.user_id)

include horder hp

theorem race_attempt_decrypt {m : PendingDecrypt} (hin : .Message m ∈ items)
    (hgroup : ((M.keysOf c₀).epoch m.room_id).isSome)
    (hready : Ready M c₀ items i (.Message m :: rest) w) :
    RaceSafe X M c₀ items i (fun r w' => (∃ b, r = .ok b) ∧ Ready M c₀ items i rest w')
      (attempt_decrypt m) w := by
  have hnodup : items.Nodup := (Store.pending_nodup hp).of_map _
  refine race_decrypt horder hnodup hready hgroup ?_ ?_
  · intro w₁ h₁
    have hsuits : Suits M (.text (M.plaintext m.room_id m.ciphertext_b64)) (.Message m) := rfl
    refine race_write hp hin hsuits (fun _ => rfl) ?_ ?_ h₁ ?_
    · exact fun held j hij => Function.update_of_ne (Ne.symm hij) _ _
    · exact fun held _ => Function.update_self _ _ _
    · exact fun w' hw' => ⟨⟨true, rfl⟩, hw'⟩
  · intro e w₁ h₁
    have hsuits : Suits M .failed (.Message m) := trivial
    refine race_write hp hin hsuits (fun _ => rfl) (fun _ _ _ => rfl) ?_ h₁ ?_
    · rintro held (⟨p, hp⟩ | hnone)
      · cases hp
      · exact hnone
    · exact fun w' hw' => ⟨⟨true, rfl⟩, hw'⟩

include hothers

/-- One event of a pass. -/
theorem race_process_one {x : PendingMls} (hready : Ready M c₀ items i (x :: rest) w) :
    RaceSafe X M c₀ items i (fun r w' => (∃ b, r = .ok b) ∧ Ready M c₀ items i rest w')
      (process_one c₀.session.user_id x) w := by
  have hnodup : items.Nodup := (Store.pending_nodup hp).of_map _
  have hin : x ∈ items := hready.ahead.sub.subset List.mem_cons_self
  have hother := hothers x hin
  cases x with
  | Commit c =>
    have hother : c.sender ≠ c₀.session.user_id := hother
    refine race_has_group (x := .Commit c) hnodup hready ?_ ?_
    · exact fun w' hw' => ⟨⟨false, rfl⟩, hw'⟩
    · intro w₁ hgroup h₁
      simp only
      rw [if_pos hother]
      apply race_commit horder hnodup h₁ hgroup
      intro r w₂ h₂
      exact race_mark_processed hp hin h₂
  | Message m =>
    have hother : m.sender ≠ c₀.session.user_id := hother
    refine race_has_group (x := .Message m) hnodup hready ?_ ?_
    · exact fun w' hw' => ⟨⟨false, rfl⟩, hw'⟩
    · intro w₁ hgroup h₁
      simp only
      rw [if_neg hother]
      exact race_attempt_decrypt horder hp hin hgroup h₁

theorem race_process_each {rest : List PendingMls} (changed : Bool)
    (hready : Ready M c₀ items i rest w) :
    RaceSafe X M c₀ items i (fun _ w' => Ready M c₀ items i [] w')
      (process_each c₀.session.user_id rest changed) w := by
  induction rest generalizing w changed with
  | nil => exact hready
  | cons x rest ih =>
    unfold process_each Prog.andThen
    apply Safe.bind
    apply Safe.mono _ (race_process_one horder hp hothers hready)
    rintro r w' ⟨⟨b, rfl⟩, hready'⟩
    exact ih (changed || b) hready'

/-- A whole pass. -/
theorem race_pass (hheld : w.held i = none) :
    RaceSafe X M c₀ items i (fun _ w' => Ready M c₀ items i [] w') process_inbound_mls w := by
  unfold process_inbound_mls
  apply race_read
  · rintro c ⟨d, hd⟩
    rw [Client.local_e2ee X hd]
  · exact fun _ _ => rfl
  intro w₁ hrely₁ hinv₁
  obtain ⟨d, hd⟩ := hinv₁.engine
  rw [Client.local_e2ee X hd]
  apply race_read
  · exact fun _ _ => rfl
  · exact fun _ _ => rfl
  intro w₂ hrely₂ hinv₂
  have hsession : (Client.local_ X .session w₂.client).1 = c₀.session := hinv₂.session
  rw [hsession]
  apply race_read
  · rintro c -
    simp only [Client.local_, Client.perform, Client.calm, Client.onStore]
    cases c.store.pending_mls <;> rfl
  · exact fun _ _ => rfl
  intro w₃ hrely₃ hinv₃
  obtain ⟨left, hpending, hahead⟩ := hinv₃.pending
  have hread : (Client.local_ X .pending_mls w₃.client).1 = .ok left := by
    simp only [Client.local_, Client.perform, Client.calm, Client.onStore, hpending, Except.map]
  rw [hread]
  have hfree : w₃.held i = none := by
    rw [hrely₃.1, hrely₂.1, hrely₁.1]
    exact hheld
  exact race_process_each horder hp hothers false ⟨hfree, hahead⟩

end Pass

end Program

omit [DecidableEq ι] in
/-- The passes as they start. -/
theorem races_start (hp : c₀.store.pending_mls = .ok items) {d : D} (hd : c₀.e2ee = some d) :
    Races M c₀ items (⟨c₀, fun _ => none⟩ : Racing ι D) := by
  have hsteady : Steady M (M.keysOf c₀) items (M.keysOf c₀) := by
    have hlast := RatchetModel.le_walk (M := M) (M.keysOf c₀) items
    refine ⟨Keys.Le.refl _, fun room e last he hl => hlast.epoch room e last he hl, ?_⟩
    intro pre m hread e f he hf hlt
    obtain ⟨g, hg⟩ := Option.isSome_iff_exists.mp hread.2.1
    have hle := (RatchetModel.le_walk (M := M) (M.keysOf c₀) pre).epoch _ e g he hg
    have hfg : some f = some g := hf.symm.trans (hread.2.2.1.trans hg)
    cases hfg
    omega
  refine ⟨rfl, ⟨d, hd⟩, hsteady, ⟨items, hp, List.Sublist.refl _, ?_⟩, ?_, ?_⟩
  · intro x hx hnot
    exact absurd hx hnot
  · intro id r₀ hr₀
    exact ⟨r₀, hr₀, rfl⟩
  · intro pre m hread hspent
    have hlater := (RatchetModel.le_walk (M := M) (M.keysOf c₀) pre).spent _ _ hspent
    rw [hread.2.2.2] at hlater
    cases hlater

end Races

/-! ## What they come to -/

/-- The body of a decrypted message: its text, or the caption of an image. -/
theorem body_decrypted (from_str : String → Option Json) {ev : StoredEvent} {plaintext : String}
    (htype : ev.event_type = "p.room.encrypted") (hdec : ev.decrypted = some plaintext) :
    (TimelineEvent.of from_str ev).body = ((from_str plaintext).filter isImage).elim
      (some plaintext) (fun v => (v.get "body").bind Json.as_str) := by
  have hne : ¬ ("p.room.encrypted" = "p.room.message") := by decide
  unfold TimelineEvent.of decrypted_image
  simp only [htype, hdec, hne, if_true, if_false, Option.bind_some]
  cases (from_str plaintext).filter isImage <;> rfl

theorem Captioned.body {from_str : String → Option Json} {ev : StoredEvent} {plaintext : String}
    (h : Captioned from_str plaintext) (htype : ev.event_type = "p.room.encrypted")
    (hdec : ev.decrypted = some plaintext) : (TimelineEvent.of from_str ev).body.isSome := by
  rw [body_decrypted from_str htype hdec]
  cases himage : (from_str plaintext).filter isImage with
  | none => rfl
  | some v =>
    rw [Option.filter_eq_some_iff] at himage
    exact h v himage.1 himage.2

/-- An entry with a body does not say whether the row was marked undecryptable. -/
theorem of_decrypt_failed {from_str : String → Option Json} {ev : StoredEvent}
    (hbody : (TimelineEvent.of from_str ev).body.isSome) (failed : Bool) :
    TimelineEvent.of from_str { ev with decrypt_failed := failed } =
      TimelineEvent.of from_str ev := by
  unfold TimelineEvent.of decrypted_image at hbody ⊢
  simp only at hbody ⊢
  rw [if_pos hbody, if_pos hbody]

/-- A row with a caption or a plain text is rendered whatever it says of failures. -/
theorem rendered_captioned {from_str : String → Option Json} {r r' : EventRow} {ev : StoredEvent}
    (hparses : StoredEvent.from_wire r.payload = .ok ev)
    (htype : ev.event_type = "p.room.encrypted")
    {plaintext : String} (hcaption : Captioned from_str plaintext)
    (hdec : r.decrypted = some plaintext) (hsame : SameEvent r r')
    (hdec' : r'.decrypted = some plaintext) : rendered from_str r' = rendered from_str r := by
  unfold SameEvent at hsame
  have hpayload : r'.payload = r.payload := by rw [hsame]
  have hlocal : r'.local_ = r.local_ := by rw [hsame]
  unfold rendered Store.parse_stored_payload
  rw [hpayload, hlocal, hdec, hdec', hparses]
  simp only [bind, Except.bind, pure, Except.pure, Except.map]
  congr 1
  have hbody : ∀ failed, (TimelineEvent.of from_str { ev with
      send_state := .from_local r.local_, decrypted := some plaintext
      decrypt_failed := failed }).body.isSome := fun failed => hcaption.body htype rfl
  exact of_decrypt_failed (hbody _) _

theorem message_type {r : EventRow} {m : PendingDecrypt}
    (h : Store.pendingOf r = .ok (some (.Message m))) : r.type = "p.room.encrypted" := by
  rcases Store.pendingOf_cases h with ⟨ct, htype, -, -⟩ | ⟨commit, -, -, hitem⟩
  · exact htype
  · cases hitem

/-- A message that a single pass has decrypted was read on its walk, and its row is the waiting
one with the plaintext. -/
theorem read_of_row {M : RatchetModel X} {c : Client D} {d : D} (hd : c.e2ee = some d)
    (hsound : Sound c.store) {items : List PendingMls} (hp : c.store.pending_mls = .ok items)
    (hothers : ∀ x ∈ items, x.sender ≠ c.session.user_id) {m : PendingDecrypt}
    (hm : .Message m ∈ items) {r : EventRow}
    (hrow : (c.digestAll X items).store.events.find m.event_id = some r)
    (hok : r.decrypt_state = DECRYPT_OK) : ∃ pre r₀ ev, M.ReadsAfter (M.keys d) items pre m ∧
      c.store.events.find m.event_id = some r₀ ∧
      r = Store.withPlaintext (M.plaintext m.room_id m.ciphertext_b64) r₀ ∧
      StoredEvent.from_wire r.payload = .ok ev ∧ ev.event_type = "p.room.encrypted" := by
  have hids := Store.pending_nodup hp
  obtain ⟨r₀, hfind, hwaits, hof⟩ := waiting_row hp hm
  obtain ⟨ev, hcolumns⟩ := hsound.columns _ r₀ hfind
  have htype : ev.event_type = "p.room.encrypted" := by
    rw [hcolumns.type]
    exact message_type hof
  obtain ⟨pre, post, heq⟩ := List.append_of_mem hm
  rw [heq] at hids hothers hrow
  cases hheld : (M.keys d).epoch m.room_id with
  | none =>
    have hsame := RatchetModel.digestAll_row_waits M hd hids hothers hheld
    exfalso
    obtain rfl : r₀ = r := Option.some.inj (hfind.symm.trans (hsame.symm.trans hrow))
    rw [hwaits] at hok
    cases hok
  | some e =>
    have hgroup : ((M.keys d).epoch (PendingMls.Message m).room_id).isSome :=
      Option.isSome_iff_exists.mpr ⟨e, hheld⟩
    have hr : r = (M.markAt (M.walk (M.keys d) pre) (.Message m)).row r₀ := by
      have hafter := RatchetModel.digestAll_row M hd hids hothers hgroup
      have hmap := congrArg (Option.map (M.markAt (M.walk (M.keys d) pre) (.Message m)).row) hfind
      exact Option.some.inj (hrow.symm.trans (hafter.trans hmap))
    by_cases hreads : M.Reads (M.walk (M.keys d) pre) m
    · have hplain : r = Store.withPlaintext (M.plaintext m.room_id m.ciphertext_b64) r₀ := by
        rw [hr]
        simp only [RatchetModel.markAt, hreads, if_true]
        rfl
      refine ⟨pre, r₀, ev, ⟨⟨post, heq⟩, hreads⟩, hfind, hplain, ?_, htype⟩
      rw [hplain]
      exact hcolumns.parses
    · exfalso
      rw [hr] at hok
      simp only [RatchetModel.markAt, hreads, if_false] at hok
      cases hok

/-- Racing passes over events in order lose nothing of what a single pass gives. -/
theorem races_lose_nothing {M : RatchetModel X} {from_str : String → Option Json} {c : Client D}
    {d : D} (hd : c.e2ee = some d) (hsound : Sound c.store) {items : List PendingMls}
    (hp : c.store.pending_mls = .ok items)
    (hothers : ∀ x ∈ items, x.sender ≠ c.session.user_id)
    (horder : OrderedStream M from_str (M.keys d) items) {n : Nat}
    {p : Crew (Fin (n + 1)) (Client D) Op Op.Res (Except CoreError Bool)}
    (hr : Crew.Reaches (PassCall X) (racing n c) p) (hended : p.Ended) :
    LosesNothing M from_str items (process_inbound_mls.run (Client.local_ X) c).2 p.state := by
  have hkeys₀ : M.keysOf c = M.keys d := keysOf_engine hd
  rw [← hkeys₀] at horder
  -- every pass records what it holds, and all are through
  obtain ⟨w, hw, hraced⟩ : ∃ w : Racing (Fin (n + 1)) D, w.client = p.state ∧
      Crew.Reaches (RaceCall X) ⟨⟨c, fun _ => none⟩, fun _ => process_inbound_mls⟩ ⟨w, p.left⟩ := by
    refine Crew.Reaches.recorded (f := Racing.client) ?_ hr
    intro i op t r s' hcall
    exact ⟨⟨s', holding i t.held op r⟩, rfl, hcall, rfl⟩
  have hstart : Crew.Holds (raceContract M c items) (RaceCall X)
      (fun i _ w' => Ready M c items i [] w')
      (⟨⟨c, fun _ => none⟩, fun _ => process_inbound_mls⟩ :
        Crew (Fin (n + 1)) (Racing (Fin (n + 1)) D) Op Op.Res (Except CoreError Bool)) :=
    ⟨races_start hp hd, fun i => race_pass horder hp hothers rfl⟩
  have hholds := hstart.reaches (fun i _ s s' hrely h => h.rely hrely) hraced
  have hready : ∀ i, Ready M c items i [] w := by
    intro i
    obtain ⟨a, ha⟩ := hended i
    have hsafe := hholds.safe i
    rw [ha] at hsafe
    exact hsafe
  have hinv : Races M c items w := hholds.inv
  have hpassed : ∀ x ∈ items, Passed M (M.keysOf c) items (M.keysOf w.client) x := fun x hx =>
    (hready 0).ahead.passed x hx List.not_mem_nil
  have hle : (M.walk (M.keysOf c) items).Le (M.keysOf w.client) :=
    le_of_passed hinv.steady.start (List.append_nil items).symm hpassed
  rw [run_process_inbound_mls X hd hp, ← hw]
  obtain ⟨d', hd', hsingle⟩ := RatchetModel.digestAll_keys M hd hothers
  have hkeys' : M.keysOf (c.digestAll X items) = M.walk (M.keysOf c) items := by
    rw [keysOf_engine hd', hsingle, hkeys₀]
  refine ⟨?_, ?_⟩
  · intro room
    rw [hkeys']
    cases hlast : (M.walk (M.keysOf c) items).epoch room with
    | none =>
      have hheld := hle.held room
      rw [hlast] at hheld
      simpa using hheld
    | some last =>
      obtain ⟨e, he, hge⟩ := hle.at hlast
      have hbound := hinv.steady.bound room e last he hlast
      rw [he]
      congr 1
      omega
  · intro m hm r hrow hok
    obtain ⟨pre, r₀, ev, hread, hr₀, hplain, hparses, htype⟩ :=
      read_of_row hd hsound hp hothers hm hrow hok
    rw [← hkeys₀] at hread
    have hspent := spent_of_passed hread (hpassed _ hm)
    obtain ⟨r', hr', hdec'⟩ : CachedIn M w.client m := by
      rcases hinv.texts pre m hread hspent with hcached | ⟨i, hi⟩
      · exact hcached
      · rw [(hready i).held] at hi
        cases hi
    obtain ⟨r₁, hr₁, hsame⟩ := hinv.rows _ r₀ hr₀
    obtain rfl : r₁ = r' := Option.some.inj (hr₁.symm.trans hr')
    refine ⟨r₁, hr₁, ?_, ?_⟩
    · rw [hdec', hplain]
      rfl
    · have hcaption := horder.captions pre m hread
      have hlater : SameEvent r r₁ := by
        unfold SameEvent at hsame ⊢
        rw [hsame, hplain]
        rfl
      exact rendered_captioned hparses htype hcaption (by rw [hplain]; rfl) hlater hdec'

end PigeonMobile

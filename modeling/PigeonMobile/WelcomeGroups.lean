-- The Welcomes of a to-device block and the groups that are held. The check before a join
-- looks at the room that the sender declared, not at the group inside the Welcome. Below is
-- which blocks are safe for every engine that installs the group inside the Welcome.
import PigeonMobile.WelcomeAcks
import PigeonMobile.EpochGroup

namespace PigeonMobile

variable {D : Type} {X : PigeonCrypto D}

/-! ## What a call of the block does to the engine -/

/-- A join leaves the engine, or installs what it accepted. -/
theorem exec_join {c c' : Client D} {d : D} {welcome : String} {r : Except CoreError Unit}
    (he : c.e2ee = some d) (hx : Client.Exec X (.join_from_welcome welcome) c r c') :
    ∃ d', c'.e2ee = some d' ∧ (d' = d ∨ X.join_from_welcome d welcome = .ok d') := by
  obtain ⟨choice, hx⟩ := hx
  obtain ⟨api, session, store, e2ee, ks⟩ := c
  simp only at he
  subst he
  simp only [Client.perform, Client.onEngine, E2ee.join_from_welcome, E2ee.mutate] at hx
  cases hjoin : X.join_from_welcome d welcome with
  | error reason =>
    rw [hjoin] at hx
    cases hx
    exact ⟨d, rfl, Or.inl rfl⟩
  | ok d' =>
    rw [hjoin] at hx
    simp only [Except.map] at hx
    generalize E2ee.persist X d' ks choice = out at hx
    obtain ⟨_ | _, ks'⟩ := out
    · cases hx
      exact ⟨d', rfl, Or.inr rfl⟩
    · cases hx
      exact ⟨d', rfl, Or.inr rfl⟩

theorem join_group_engine {c c' : Client D} {d : D} {welcome : String} {calls : List (Called D)}
    {p' : Code Bool} (he : c.e2ee = some d) (hr : Alone X (join_group welcome) c calls p' c') :
    ∃ d', c'.e2ee = some d' ∧ (d' = d ∨ X.join_from_welcome d welcome = .ok d') := by
  rcases Prog.Runs.call_inv hr with ⟨_, _, rfl⟩ | ⟨r, c₁, c₁', calls₁, hx, rfl, _, hr₁⟩
  · exact ⟨d, he, Or.inl rfl⟩
  · cases r with
    | ok u =>
      rw [hr₁.done_inv.2.2]
      exact exec_join he hx
    | error e =>
      rw [hr₁.done_inv.2.2]
      exact exec_join he hx

/-- One Welcome, left at any call: the engine is as it was, or it has joined, and then the
room that the Welcome declares was not held. -/
theorem apply_welcome_engine {c c' : Client D} {d : D} {w : WelcomeEvent} {calls : List (Called D)}
    {p' : Code Bool} (he : c.e2ee = some d) (hr : Alone X (apply_welcome w) c calls p' c') :
    ∃ d', c'.e2ee = some d' ∧ (d' = d ∨ X.join_from_welcome d w.welcome_b64 = .ok d' ∧
      ∀ room, w.room_id = some room → X.load_group d room = false) := by
  obtain ⟨welcome, room_id⟩ := w
  cases room_id with
  | none =>
    obtain ⟨d', hd', hjoin⟩ := join_group_engine he hr
    exact ⟨d', hd', hjoin.imp id (fun h => ⟨h, fun room hroom => by cases hroom⟩)⟩
  | some room =>
    rcases Prog.Runs.call_inv hr with ⟨_, _, rfl⟩ | ⟨r, c₁, c₁', calls₁, hx, rfl, _, hr₁⟩
    · exact ⟨d, he, Or.inl rfl⟩
    · obtain ⟨rfl, hanswer⟩ := Client.exec_has_group hx
      rcases hanswer with ⟨e, rfl⟩ | ⟨d₁, hd₁, rfl⟩
      · rw [hr₁.done_inv.2.2]
        exact ⟨d, he, Or.inl rfl⟩
      · rw [he] at hd₁
        cases hd₁
        cases hheld : X.load_group d room with
        | true =>
          rw [hheld] at hr₁
          rw [hr₁.done_inv.2.2]
          exact ⟨d, he, Or.inl rfl⟩
        | false =>
          rw [hheld] at hr₁
          obtain ⟨d', hd', hjoin⟩ := join_group_engine he hr₁
          refine ⟨d', hd', hjoin.imp id (fun h => ⟨h, ?_⟩)⟩
          intro room' hroom'
          cases hroom'
          exact hheld

/-! ## The claimed safety -/

/-- At every moment of the call, what the engine had of the groups it held is unchanged. -/
def HeldStay (W : Welcomes X) (c : Client D) (resp : Json) : Prop :=
  ∀ d, c.e2ee = some d → ∀ calls p' c', Alone X (apply_to_device resp) c calls p' c' →
    ∃ d', c'.e2ee = some d' ∧ ∀ r, X.load_group d r = true → W.copy d' r = W.copy d r

/-- A Welcome whose group is not held at its turn is tried, unless the check itself fails. -/
def NoneSkipped (W : Welcomes X) (c : Client D) (resp : Json) : Prop :=
  ∀ before w after, syncWelcomes resp = before ++ w :: after →
    ∀ earlier joined c₁ d₁, Alone X (apply_welcomes before false) c earlier (.done joined) c₁ →
      c₁.e2ee = some d₁ → X.load_group d₁ (W.group w.welcome_b64) = false →
      ∀ calls joined' c₂, Alone X (apply_welcome w) c₁ calls (.done joined') c₂ →
        (∃ e ∈ calls, e.op = .join_from_welcome w.welcome_b64) ∨
          ∃ room err, (⟨c₁, .has_group room, .error err⟩ : Called D) ∈ calls

/-- What a Welcome declares is safe: a group held before the call is declared by a room that is
held. Any other declares no room, its own, or one that is not held and that no earlier
Welcome of the block brings. -/
structure SafelyDeclared (group : String → String) (held : String → Bool)
    (before : List WelcomeEvent) (w : WelcomeEvent) : Prop where
  old : held (group w.welcome_b64) = true → ∃ room, w.room_id = some room ∧ held room = true
  new : held (group w.welcome_b64) = false → ∀ room, w.room_id = some room →
    room = group w.welcome_b64 ∨
      held room = false ∧ ∀ w' ∈ before, group w'.welcome_b64 ≠ room

def AllSafelyDeclared (group : String → String) (held : String → Bool) (ws : List WelcomeEvent) :
    Prop := ∀ before w after, ws = before ++ w :: after → SafelyDeclared group held before w

/-! ## A safe block -/

/-- The engine `d` after the Welcomes `before`, where the call began at `d₀`. -/
structure Welcomed (W : Welcomes X) (d₀ : D) (before : List WelcomeEvent) (d : D) : Prop where
  stays : ∀ r, X.load_group d₀ r = true → W.copy d r = W.copy d₀ r
  brought : ∀ r, X.load_group d r = true →
    X.load_group d₀ r = true ∨ ∃ w ∈ before, W.group w.welcome_b64 = r

theorem Welcomed.held (W : Welcomes X) {d₀ d : D} {before : List WelcomeEvent}
    (h : Welcomed W d₀ before d) {r : String} (hr : X.load_group d₀ r = true) :
    X.load_group d r = true := by
  rw [W.load_group, h.stays r hr, ← W.load_group]
  exact hr

theorem Welcomed.more (W : Welcomes X) {d₀ d : D} {before : List WelcomeEvent}
    (h : Welcomed W d₀ before d) (w : WelcomeEvent) : Welcomed W d₀ (before ++ [w]) d := by
  refine ⟨h.stays, ?_⟩
  intro r hr
  rcases h.brought r hr with hold | ⟨w', hw', hg⟩
  · exact Or.inl hold
  · exact Or.inr ⟨w', List.mem_append_left _ hw', hg⟩

/-- A safe Welcome keeps it, wherever its call is left. -/
theorem Welcomed.step (W : Welcomes X) {d₀ d : D} {before : List WelcomeEvent} {w : WelcomeEvent}
    (h : Welcomed W d₀ before d) (hsafe : SafelyDeclared W.group (X.load_group d₀) before w)
    {c c' : Client D} {calls : List (Called D)} {p' : Code Bool} (he : c.e2ee = some d)
    (hr : Alone X (apply_welcome w) c calls p' c') :
    ∃ d', c'.e2ee = some d' ∧ Welcomed W d₀ (before ++ [w]) d' := by
  obtain ⟨d', hd', rfl | ⟨hjoin, hfree⟩⟩ := apply_welcome_engine he hr
  · exact ⟨d', hd', h.more W w⟩
  · refine ⟨d', hd', ?_, ?_⟩
    · intro r hr'
      have hne : r ≠ W.group w.welcome_b64 := by
        rintro rfl
        obtain ⟨room, hroom, hheld⟩ := hsafe.old hr'
        have hroom' := h.held W hheld
        rw [hfree room hroom] at hroom'
        cases hroom'
      rw [(W.join d _ d' hjoin).2 r hne]
      exact h.stays r hr'
    · intro r hr'
      by_cases hg : r = W.group w.welcome_b64
      · exact Or.inr ⟨w, by simp, hg.symm⟩
      · rw [W.load_group, (W.join d _ d' hjoin).2 r hg, ← W.load_group] at hr'
        rcases h.brought r hr' with hold | ⟨w', hw', hg'⟩
        · exact Or.inl hold
        · exact Or.inr ⟨w', List.mem_append_left _ hw', hg'⟩

theorem Welcomed.run (W : Welcomes X) {d₀ d : D} {before ws : List WelcomeEvent}
    (h : Welcomed W d₀ before d)
    (hsafe : AllSafelyDeclared W.group (X.load_group d₀) (before ++ ws)) {c c' : Client D}
    {joined : Bool} {calls : List (Called D)} {p' : Code Bool} (he : c.e2ee = some d)
    (hr : Alone X (apply_welcomes ws joined) c calls p' c') :
    ∃ d' seen, c'.e2ee = some d' ∧ Welcomed W d₀ seen d' ∧
      ((∃ joined', p' = .done joined') → seen = before ++ ws) := by
  induction ws generalizing before d c joined calls with
  | nil =>
    obtain ⟨_, _, rfl⟩ := Prog.Runs.done_inv hr
    exact ⟨d, before, he, h, fun _ => by simp⟩
  | cons w rest ih =>
    have hw : SafelyDeclared W.group (X.load_group d₀) before w := hsafe before w rest rfl
    rcases Prog.Runs.bind_inv hr with ⟨op, k, hcut, rfl⟩ | ⟨j, es₁, es₂, c₁, rfl, hone, hrest⟩
    · obtain ⟨d', hd', h'⟩ := h.step W hw he hcut
      exact ⟨d', _, hd', h', fun ⟨_, hdone⟩ => by cases hdone⟩
    · obtain ⟨d₁, hd₁, h₁⟩ := h.step W hw he hone
      obtain ⟨d', seen, hd', h', hall⟩ := ih h₁ (by simpa using hsafe) hd₁ hrest
      exact ⟨d', seen, hd', h', fun hdone => by simpa using hall hdone⟩

theorem welcomed_start (W : Welcomes X) (d : D) : Welcomed W d [] d :=
  ⟨fun _ _ => rfl, fun _ hr => Or.inl hr⟩

/-- A run of the block is a run of its Welcomes, after one look at the engine. -/
theorem to_device_engine {resp : Json} {c c' : Client D} {calls : List (Called D)} {p' : Code Bool}
    {d : D} (he : c.e2ee = some d) (hr : Alone X (apply_to_device resp) c calls p' c') :
    c'.e2ee = some d ∨
      ∃ calls', Alone X (apply_welcomes (syncWelcomes resp) false) c calls' p' c' := by
  unfold apply_to_device at hr
  unfold syncWelcomes
  cases hevents : ((resp.index "to_device").index "events").as_array with
  | none =>
    simp only [hevents] at hr
    rw [(Prog.Runs.done_inv hr).2.2]
    exact Or.inl he
  | some events =>
    simp only [hevents] at hr
    rcases Prog.Runs.call_inv hr with ⟨_, _, rfl⟩ | ⟨r, c₁, c₁', calls₁, hx, rfl, _, hr₁⟩
    · exact Or.inl he
    · obtain ⟨rfl, rfl⟩ := Client.exec_e2ee hx
      rw [he] at hr₁
      exact Or.inr ⟨calls₁, hr₁⟩

theorem safe_heldStay (W : Welcomes X) {c : Client D} {d : D} {resp : Json} (he : c.e2ee = some d)
    (hsafe : AllSafelyDeclared W.group (X.load_group d) (syncWelcomes resp)) :
    HeldStay W c resp := by
  intro d₀ hd₀ calls p' c' hr
  rw [he] at hd₀
  cases hd₀
  rcases to_device_engine he hr with hstill | ⟨calls', hr'⟩
  · exact ⟨d, hstill, fun _ _ => rfl⟩
  · obtain ⟨d', _, hd', h', -⟩ := (welcomed_start W d).run W hsafe he hr'
    exact ⟨d', hd', h'.stays⟩

/-- The join of a Welcome is called, or the check of its room was not answered with no. -/
theorem apply_welcome_tries {c c' : Client D} {w : WelcomeEvent} {calls : List (Called D)}
    {joined : Bool} (hr : Alone X (apply_welcome w) c calls (.done joined) c') :
    (∃ e ∈ calls, e.op = .join_from_welcome w.welcome_b64) ∨
      ∃ room, w.room_id = some room ∧
        ((∃ err, (⟨c, .has_group room, .error err⟩ : Called D) ∈ calls) ∨
        ∃ d, c.e2ee = some d ∧ X.load_group d room = true) := by
  obtain ⟨welcome, room_id⟩ := w
  have hjoin : ∀ {c calls}, Alone X (join_group welcome) c calls (.done joined) c' →
      ∃ e ∈ calls, e.op = .join_from_welcome welcome := by
    intro c calls hr
    rcases Prog.Runs.call_inv hr with ⟨_, h, _⟩ | ⟨r, c₁, c₁', calls₁, hx, rfl, rfl, hr₁⟩
    · cases h
    · exact ⟨_, List.mem_cons_self, rfl⟩
  cases room_id with
  | none => exact Or.inl (hjoin hr)
  | some room =>
    rcases Prog.Runs.call_inv hr with ⟨_, h, _⟩ | ⟨r, c₁, c₁', calls₁, hx, rfl, rfl, hr₁⟩
    · cases h
    · obtain ⟨rfl, hanswer⟩ := Client.exec_has_group hx
      rcases hanswer with ⟨e, rfl⟩ | ⟨d₁, hd₁, rfl⟩
      · exact Or.inr ⟨room, rfl, Or.inl ⟨e, List.mem_cons_self⟩⟩
      · cases hheld : X.load_group d₁ room with
        | true => exact Or.inr ⟨room, rfl, Or.inr ⟨d₁, hd₁, hheld⟩⟩
        | false =>
          rw [hheld] at hr₁
          obtain ⟨e, he, hop⟩ := hjoin hr₁
          exact Or.inl ⟨e, List.mem_cons_of_mem _ he, hop⟩

theorem safe_noneSkipped (W : Welcomes X) {c : Client D} {d : D} {resp : Json}
    (he : c.e2ee = some d)
    (hsafe : AllSafelyDeclared W.group (X.load_group d) (syncWelcomes resp)) :
    NoneSkipped W c resp := by
  intro before w after hsplit earlier joined c₁ d₁ hbefore hd₁ hnew calls joined' c₂ hturn
  have hw : SafelyDeclared W.group (X.load_group d) before w := hsafe before w after hsplit
  have hpre : AllSafelyDeclared W.group (X.load_group d) ([] ++ before) := by
    intro b v a hb
    apply hsafe b v (a ++ w :: after)
    rw [List.nil_append] at hb
    rw [hsplit, hb]
    simp
  obtain ⟨d', seen, hd', h', hall⟩ := (welcomed_start W d).run W hpre he hbefore
  have hseen : seen = before := by simpa using hall ⟨joined, rfl⟩
  subst hseen
  rw [hd₁] at hd'
  cases hd'
  rcases apply_welcome_tries hturn with htried | ⟨room, hroom, hfail | ⟨d₂, hd₂, hheld⟩⟩
  · exact Or.inl htried
  · obtain ⟨err, hmem⟩ := hfail
    exact Or.inr ⟨room, err, hmem⟩
  · -- the declared room is held, so it is the group itself, or the block is not safe
    rw [hd₁] at hd₂
    cases hd₂
    have hnotold : X.load_group d (W.group w.welcome_b64) = false := by
      cases hold : X.load_group d (W.group w.welcome_b64) with
      | false => rfl
      | true => rw [h'.held W hold] at hnew; cases hnew
    rcases hw.new hnotold room hroom with rfl | ⟨hfree, hbrought⟩
    · rw [hheld] at hnew
      cases hnew
    · rcases h'.brought room hheld with hold | ⟨w', hw', hg⟩
      · rw [hold] at hfree
        cases hfree
      · exact absurd hg (hbrought w' hw')

/-! ## An engine for every other block -/

/-- An engine that accepts the Welcomes of `takes`, and counts how often it joined a group. -/
def countingCrypto (group : String → String) (takes : String → Bool) :
    PigeonCrypto (String → Option Nat) where
  new _ := .ok (fun _ => none)
  load_group d room := (d room).isSome
  create_group d room := .ok (Function.update d room (some 0))
  add_member d room _ := .ok (d, room, room)
  process_commit d _ _ := .ok d
  join_from_welcome d welcome :=
    if takes welcome then .ok (Function.update d (group welcome)
      (some ((d (group welcome)).getD 0 + 1)))
    else .error "not for this device"
  encrypt d _ plaintext := .ok (d, plaintext)
  decrypt d _ ciphertext := .ok (d, some ciphertext)
  new_key_packages d n := .ok (d, List.replicate n "key-package")
  new_last_resort_key_package d := .ok (d, "key-package")
  signature_public_key _ := "key"
  export_storage _ := ""
  restore _ _ _ := .error "not stored"

def countingWelcomes (group : String → String) (takes : String → Bool) :
    Welcomes (countingCrypto group takes) where
  Copy := Nat
  copy d room := d room
  group := group
  load_group _ _ := rfl
  join d welcome d' h := by
    by_cases ht : takes welcome = true
    · simp only [countingCrypto, ht, if_true, Except.ok.injEq] at h
      subst h
      refine ⟨by simp, fun r hr => by simp [hr]⟩
    · simp [countingCrypto, ht] at h

section Counting

variable {group : String → String} {takes : String → Bool}

/-- A client with that engine and no key store. -/
def countingClient (d : String → Option Nat) : Client (String → Option Nat) :=
  { api := ⟨"https://pigeon.example", some "token"⟩
    session := ⟨"@ann:pigeon.example", "ANN1", "https://pigeon.example"⟩
    store := Store.init
    e2ee := some d
    key_store := none }

/-- What one Welcome makes of the engine where no call fails. -/
def countWelcome (group : String → String) (takes : String → Bool) (d : String → Option Nat)
    (w : WelcomeEvent) : String → Option Nat :=
  if (w.room_id.bind d).isSome then d
  else if takes w.welcome_b64 then
    Function.update d (group w.welcome_b64) (some ((d (group w.welcome_b64)).getD 0 + 1))
  else d

theorem run_join_counting (d : String → Option Nat) (welcome : String) :
    ((join_group welcome).run (Client.local_ (countingCrypto group takes)) (countingClient d)).2 =
      countingClient (if takes welcome then
        Function.update d (group welcome) (some ((d (group welcome)).getD 0 + 1)) else d) := by
  unfold join_group
  rw [Prog.run_call]
  by_cases ht : takes welcome = true
  · have hcall : Client.local_ (countingCrypto group takes) (.join_from_welcome welcome)
        (countingClient d) = (.ok (), countingClient
          (Function.update d (group welcome) (some ((d (group welcome)).getD 0 + 1)))) := by
      unfold Client.local_
      simp only [Client.perform, Client.onEngine, E2ee.join_from_welcome, E2ee.mutate,
        countingCrypto, countingClient, ht, if_true, Except.map]
      rfl
    rw [hcall, if_pos ht]
    rfl
  · have hcall : Client.local_ (countingCrypto group takes) (.join_from_welcome welcome)
        (countingClient d) = (.error (.Crypto "not for this device"), countingClient d) := by
      unfold Client.local_
      simp only [Client.perform, Client.onEngine, E2ee.join_from_welcome, E2ee.mutate,
        countingCrypto, countingClient, ht, Except.map]
      rfl
    rw [hcall, if_neg ht]
    rfl

theorem run_welcome_counting (d : String → Option Nat) (w : WelcomeEvent) :
    ((apply_welcome w).run (Client.local_ (countingCrypto group takes)) (countingClient d)).2 =
      countingClient (countWelcome group takes d w) := by
  obtain ⟨welcome, room_id⟩ := w
  cases room_id with
  | none =>
    rw [apply_welcome, run_join_counting]
    simp [countWelcome]
  | some room =>
    have hcall : Client.local_ (countingCrypto group takes) (.has_group room) (countingClient d) =
        (.ok (d room).isSome, countingClient d) := rfl
    simp only [apply_welcome]
    rw [Prog.run_call, hcall]
    cases hroom : (d room).isSome with
    | true => simp [countWelcome, hroom]
    | false =>
      simp only
      rw [run_join_counting]
      simp [countWelcome, hroom]

theorem run_welcomes_counting (ws : List WelcomeEvent) (joined : Bool) (d : String → Option Nat) :
    ((apply_welcomes ws joined).run (Client.local_ (countingCrypto group takes))
      (countingClient d)).2 =
      countingClient (ws.foldl (countWelcome group takes) d) := by
  induction ws generalizing joined d with
  | nil => rfl
  | cons w rest ih =>
    simp only [apply_welcomes]
    rw [Prog.run_bind, run_welcome_counting, ih]
    rfl

theorem run_block_counting (resp : Json) (d : String → Option Nat) :
    ((apply_to_device resp).run (Client.local_ (countingCrypto group takes)) (countingClient d)).2 =
      countingClient ((syncWelcomes resp).foldl (countWelcome group takes) d) := by
  unfold apply_to_device syncWelcomes
  cases ((resp.index "to_device").index "events").as_array with
  | none => rfl
  | some events =>
    simp only [Option.getD_some]
    rw [Prog.run_call]
    exact run_welcomes_counting _ false d

variable (group takes) in
theorem count_joins {d : String → Option Nat} {w : WelcomeEvent}
    (hfree : ∀ room, w.room_id = some room → d room = none) (ht : takes w.welcome_b64 = true) :
    countWelcome group takes d w (group w.welcome_b64) =
      some ((d (group w.welcome_b64)).getD 0 + 1) := by
  have hnot : ¬ (w.room_id.bind d).isSome = true := by
    cases hroom : w.room_id with
    | none => simp
    | some room => simp [hfree room hroom]
  unfold countWelcome
  rw [if_neg hnot, if_pos ht, Function.update_self]

variable (group takes) in
/-- A count never falls. -/
theorem count_grows (d : String → Option Nat) (w : WelcomeEvent) (r : String) (n : Nat)
    (h : d r = some n) : ∃ m, n ≤ m ∧ countWelcome group takes d w r = some m := by
  unfold countWelcome
  split
  · exact ⟨n, le_refl n, h⟩
  · split
    · by_cases hr : r = group w.welcome_b64
      · subst hr
        refine ⟨n + 1, by omega, ?_⟩
        simp [h]
      · refine ⟨n, le_refl n, ?_⟩
        simp [hr, h]
    · exact ⟨n, le_refl n, h⟩

variable (group takes) in
theorem counts_grow (ws : List WelcomeEvent) (d : String → Option Nat) (r : String) (n : Nat)
    (h : d r = some n) : ∃ m, n ≤ m ∧ ws.foldl (countWelcome group takes) d r = some m := by
  induction ws generalizing d n with
  | nil => exact ⟨n, le_refl n, h⟩
  | cons w rest ih =>
    obtain ⟨m, hm, hd⟩ := count_grows group takes d w r n h
    obtain ⟨m', hm', hd'⟩ := ih _ m hd
    exact ⟨m', by omega, hd'⟩

/-- Only the group of the one Welcome that is taken is ever counted. -/
theorem counts_other (ws : List WelcomeEvent) (welcome : String) (d : String → Option Nat)
    (r : String) (h : r ≠ group welcome) :
    ws.foldl (countWelcome group (fun t => decide (t = welcome))) d r = d r := by
  induction ws generalizing d with
  | nil => rfl
  | cons w rest ih =>
    rw [List.foldl_cons, ih]
    unfold countWelcome
    split
    · rfl
    · by_cases ht : w.welcome_b64 = welcome
      · simp [ht, h]
      · simp [ht]

theorem admits_none (ws : List WelcomeEvent) (d : String → Option Nat) :
    ws.foldl (countWelcome group (fun _ => false)) d = d := by
  induction ws with
  | nil => rfl
  | cons w rest ih =>
    have hone : countWelcome group (fun _ => false) d w = d := by simp [countWelcome]
    rw [List.foldl_cons, hone, ih]

/-- A Welcome that declares a held room is skipped. -/
theorem skipped_is_held {d : String → Option Nat} {resp : Json}
    (h : NoneSkipped (countingWelcomes group takes) (countingClient d) resp)
    {before after : List WelcomeEvent} {w : WelcomeEvent} {room : String}
    (hsplit : syncWelcomes resp = before ++ w :: after) (hroom : w.room_id = some room)
    (hheld : (before.foldl (countWelcome group takes) d room).isSome = true) :
    (before.foldl (countWelcome group takes) d (group w.welcome_b64)).isSome = true := by
  by_contra hnew
  have hbefore := alone_local (countingCrypto group takes) (apply_welcomes before false)
    (countingClient d)
  have hturn := alone_local (countingCrypto group takes) (apply_welcome w)
    (countingClient (before.foldl (countWelcome group takes) d))
  rw [run_welcomes_counting] at hbefore
  have hfree : (countingCrypto group takes).load_group (before.foldl (countWelcome group takes) d)
      (group w.welcome_b64) = false := Bool.eq_false_iff.mpr hnew
  have hcalls := h before w after hsplit _ _ _ _ hbefore rfl hfree _ _ _ hturn
  have hcall : Client.local_ (countingCrypto group takes) (.has_group room)
      (countingClient (before.foldl (countWelcome group takes) d)) =
      (.ok true, countingClient (before.foldl (countWelcome group takes) d)) := by
    rw [← hheld]
    rfl
  have htrace : (apply_welcome w).trace (Client.local_ (countingCrypto group takes))
      (countingClient (before.foldl (countWelcome group takes) d)) =
      [⟨countingClient (before.foldl (countWelcome group takes) d), .has_group room,
        .ok true⟩] := by
    unfold apply_welcome
    simp only [hroom, Prog.trace]
    rw [hcall]
    rfl
  rw [htrace] at hcalls
  rcases hcalls with ⟨e, he, hop⟩ | ⟨room', err, hmem⟩
  · rw [List.mem_singleton.mp he] at hop
    cases hop
  · have habs := List.mem_singleton.mp hmem
    cases habs

end Counting

/-- The engine that holds the groups `held`, none of them joined yet. -/
def heldCounts (held : String → Bool) : String → Option Nat :=
  fun room => if held room then some 0 else none

section Needed

variable {group : String → String} {held : String → Bool} {resp : Json}
  (hcount : ∀ takes, HeldStay (countingWelcomes group takes) (countingClient (heldCounts held))
    resp ∧
    NoneSkipped (countingWelcomes group takes) (countingClient (heldCounts held)) resp)

include hcount

/-- A declared room that is held before the call is of a Welcome whose group is held. -/
theorem group_of_held_room {before after : List WelcomeEvent} {w : WelcomeEvent} {room : String}
    (hsplit : syncWelcomes resp = before ++ w :: after) (hroom : w.room_id = some room)
    (hheld : held room = true) : held (group w.welcome_b64) = true := by
  have hskip := skipped_is_held (hcount (fun _ => false)).2 hsplit hroom
    (by rw [admits_none]; simp [heldCounts, hheld])
  rw [admits_none] at hskip
  by_contra hnew
  simp [heldCounts, hnew] at hskip

/-- A Welcome of a held group declares a held room. An engine that takes this Welcome joins its
group again. -/
theorem held_group_is_declared {before after : List WelcomeEvent} {w : WelcomeEvent}
    (hsplit : syncWelcomes resp = before ++ w :: after) (hold : held (group w.welcome_b64) = true) :
    ∃ room, w.room_id = some room ∧ held room = true := by
  by_contra hno
  have hstay := (hcount (fun t => decide (t = w.welcome_b64))).1 _ rfl _ _ _
    (alone_local _ (apply_to_device resp) _)
  rw [run_block_counting, hsplit, List.foldl_append, List.foldl_cons] at hstay
  obtain ⟨d', hd', hsame⟩ := hstay
  cases hd'
  have hcopy := hsame (group w.welcome_b64) (by simp [countingCrypto, heldCounts, hold])
  obtain ⟨n, -, hn⟩ := counts_grow group (fun t => decide (t = w.welcome_b64))
    before (heldCounts held) (group w.welcome_b64) 0 (by simp [heldCounts, hold])
  have hjoins := count_joins group (fun t => decide (t = w.welcome_b64))
    (d := before.foldl (countWelcome group (fun t => decide (t = w.welcome_b64))) (heldCounts held))
    (w := w) (by
      intro room hroom
      have hfree : ¬ held room = true := fun hroomheld => hno ⟨room, hroom, hroomheld⟩
      have hne : room ≠ group w.welcome_b64 := by
        rintro rfl
        exact hfree hold
      rw [counts_other before w.welcome_b64 _ room hne]
      simp [heldCounts, hfree]) (by simp)
  obtain ⟨m, hm, hfinal⟩ := counts_grow group (fun t => decide (t = w.welcome_b64))
    after _ _ _ hjoins
  have hzero : some m = some 0 := by
    rw [← hfinal]
    have hstart : heldCounts held (group w.welcome_b64) = some 0 := by simp [heldCounts, hold]
    exact hcopy.trans hstart
  have hm0 : m = 0 := by simpa using hzero
  omega

/-- An engine that takes the Welcome of a new group holds the group after the Welcomes around it. -/
theorem taken_group_is_held {before after : List WelcomeEvent} {w : WelcomeEvent}
    (between : List WelcomeEvent) (hsplit : syncWelcomes resp = before ++ w :: after)
    (hnew : held (group w.welcome_b64) = false) :
    ((before ++ w :: between).foldl (countWelcome group (fun t => decide (t = w.welcome_b64)))
      (heldCounts held) (group w.welcome_b64)).isSome = true := by
  rw [List.foldl_append, List.foldl_cons]
  have hone : ∃ n, countWelcome group (fun t => decide (t = w.welcome_b64))
      (before.foldl (countWelcome group (fun t => decide (t = w.welcome_b64))) (heldCounts held)) w
      (group w.welcome_b64) = some n := by
    by_cases hthere : (before.foldl (countWelcome group (fun t => decide (t = w.welcome_b64)))
        (heldCounts held) (group w.welcome_b64)).isSome = true
    · obtain ⟨n, hn⟩ := Option.isSome_iff_exists.mp hthere
      obtain ⟨m, -, hm⟩ := count_grows group (fun t => decide (t = w.welcome_b64))
        _ w (group w.welcome_b64) n hn
      exact ⟨m, hm⟩
    · refine ⟨_, count_joins group _ ?_ (by simp)⟩
      intro room hroom
      by_cases hown : room = group w.welcome_b64
      · subst hown
        simpa using hthere
      · rw [counts_other before w.welcome_b64 _ room hown]
        have hfree : ¬ held room = true := by
          intro hheld
          have hold := group_of_held_room hcount hsplit hroom hheld
          rw [hnew] at hold
          cases hold
        simp [heldCounts, hfree]
  obtain ⟨n, hn⟩ := hone
  obtain ⟨m, -, hm⟩ := counts_grow group (fun t => decide (t = w.welcome_b64)) between _ _ _ hn
  rw [hm]
  rfl

/-- A Welcome of a new group declares that group, or a room that no group is for so far. -/
theorem new_group_is_declared {before after : List WelcomeEvent} {w : WelcomeEvent} {room : String}
    (hsplit : syncWelcomes resp = before ++ w :: after) (hnew : held (group w.welcome_b64) = false)
    (hroom : w.room_id = some room) : room = group w.welcome_b64 ∨
      held room = false ∧ ∀ w' ∈ before, group w'.welcome_b64 ≠ room := by
  by_cases hown : room = group w.welcome_b64
  · exact Or.inl hown
  right
  have hfree : held room = false := by
    by_contra hheld
    have hold := group_of_held_room hcount hsplit hroom (by simpa using hheld)
    rw [hnew] at hold
    cases hold
  refine ⟨hfree, ?_⟩
  intro w' hw' hg
  -- an engine that takes the earlier Welcome holds the declared room at the turn of `w`
  obtain ⟨b₁, b₂, rfl⟩ := List.append_of_mem hw'
  have hsplit' : syncWelcomes resp = b₁ ++ w' :: (b₂ ++ w :: after) := by
    rw [hsplit]
    simp
  have hbrought := taken_group_is_held hcount b₂ hsplit' (by rw [hg]; exact hfree)
  rw [hg] at hbrought
  have hskip := skipped_is_held (hcount (fun t => decide (t = w'.welcome_b64))).2 hsplit hroom
    hbrought
  rw [counts_other _ w'.welcome_b64 _ _ (by rw [hg]; exact Ne.symm hown)] at hskip
  simp [heldCounts, hnew] at hskip

end Needed

/-- A block leaves the groups held before as they were and skips no new one, whatever engine
installs the group inside a Welcome, if and only if all its Welcomes are safely declared. -/
theorem a_block_is_safe_iff (group : String → String) (held : String → Bool) (resp : Json) :
    (∀ (D : Type) (X : PigeonCrypto D) (W : Welcomes X) (c : Client D) (d : D), W.group = group →
      c.e2ee = some d → (∀ r, X.load_group d r = held r) → HeldStay W c resp ∧
        NoneSkipped W c resp) ↔
    AllSafelyDeclared group held (syncWelcomes resp) := by
  constructor
  · intro h
    have hcount : ∀ takes, HeldStay (countingWelcomes group takes)
        (countingClient (heldCounts held)) resp ∧
        NoneSkipped (countingWelcomes group takes) (countingClient (heldCounts held)) resp := by
      intro takes
      apply h _ _ _ _ _ rfl rfl
      intro r
      by_cases hr : held r = true <;> simp [countingCrypto, heldCounts, hr]
    intro before w after hsplit
    exact ⟨held_group_is_declared hcount hsplit,
      fun hnew room hroom => new_group_is_declared hcount hsplit hnew hroom⟩
  · intro hsafe D X W c d hgroup he hheld
    have hsame : X.load_group d = held := funext hheld
    subst hgroup hsame
    exact ⟨safe_heldStay W he hsafe, safe_noneSkipped W he hsafe⟩

/-! ## A Welcome that says nothing of its room -/

theorem epoch_join {d d' : Copies} {welcome : String}
    (h : epochCrypto.join_from_welcome d welcome = .ok d') :
    (d'.epoch (textOf welcome)).isSome = true ∧ ∀ r, r ≠ textOf welcome →
    d'.epoch r = d.epoch r := by
  cases h
  refine ⟨by rw [Copies.epoch_set]; simp, ?_⟩
  intro r hr
  rw [Copies.epoch_set]
  simp [hr]

theorem epoch_load_group (d : Copies) (room : String) :
    epochCrypto.load_group d room = (d.epoch room).isSome := rfl

def epochWelcomes : Welcomes epochCrypto where
  Copy := Nat
  copy := Copies.epoch
  group := textOf
  load_group := epoch_load_group
  join _ _ _ h := epoch_join h

/-- A response with the Welcome of `!room` at epoch 3, and no room declared. -/
def silentResponse : Json :=
  .obj [("to_device", .obj [("events", .arr [.obj [("type", .str "p.mls.welcome"),
    ("content", .obj [("welcome", .str (epochText 3 "!room"))])]])])]

/-- The copy at epoch 0 is overwritten. -/
theorem a_silent_welcome_overwrites_a_group : ¬ ∀ (c : Client Copies) (resp : Json),
    HeldStay epochWelcomes c resp ∧ NoneSkipped epochWelcomes c resp := by
  intro h
  have hrun := alone_local epochCrypto (apply_to_device silentResponse) memberClient
  obtain ⟨d', hd', hsame⟩ := (h memberClient silentResponse).1 _ rfl _ _ _ hrun
  have hepoch : d'.epoch "!room" = some 0 := hsame "!room" rfl
  have hmoved : ((apply_to_device silentResponse).run (Client.local_ epochCrypto)
      memberClient).2.e2ee.bind
      (fun d => d.epoch "!room") = some 3 := rfl
  rw [hd', Option.bind_some, hepoch] at hmoved
  simp at hmoved

end PigeonMobile

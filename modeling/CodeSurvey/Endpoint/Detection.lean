import CodeSurvey.Endpoint.Route
import CodeSurvey.Record.Basic

/-!
# Endpoints

A file that serves a route has an endpoint for every export that is named
exactly like a method of the protocol.
-/

namespace CodeSurvey

inductive HttpMethod where
  | get
  | post
  | put
  | delete
  | patch
  deriving DecidableEq, Repr

namespace HttpMethod

def all : List HttpMethod := [get, post, put, delete, patch]

def word : HttpMethod → String
  | get => "GET"
  | post => "POST"
  | put => "PUT"
  | delete => "DELETE"
  | patch => "PATCH"

def ofWord? (s : String) : Option HttpMethod := all.find? (·.word == s)

end HttpMethod

structure ApiEndpointRecord where
  httpMethod : HttpMethod
  routePath : String
  sourceFile : String
  lineNumber : Nat
  deriving DecidableEq, Repr

namespace ParsedFile

/-- The endpoints of a file, in the order of its exports. -/
def endpoints (c : RouteConfig) (f : ParsedFile) : List ApiEndpointRecord :=
  match c.route? f.path with
  | none => []
  | some route =>
    f.exports.filterMap fun e =>
      if e.kind = .named then
        (HttpMethod.ofWord? e.name).map fun m => ⟨m, route, f.path, e.line⟩
      else none

end ParsedFile

/-- The endpoints of all files, in their order. -/
def detectEndpoints (c : RouteConfig) (files : List ParsedFile) : List ApiEndpointRecord :=
  files.flatMap (·.endpoints c)

end CodeSurvey

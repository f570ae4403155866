import CodeSurvey.Repository.Manifest
import CodeSurvey.Text.Lowercase

/-!
# Architecture

A few lines on how a package is built, from the names of its dependencies. Of
several frameworks or databases the first one of a list counts; of several ways
to authenticate or to test, the last one.
-/

namespace CodeSurvey

structure Architecture where
  kind : String
  framework : String
  language : String
  database : Option String
  authentication : Option String
  styling : Option String
  testing : Option String
  deriving DecidableEq, Repr

namespace Architecture

def frameworks : List (String × String) :=
  [("next", "Next.js"), ("react", "React"), ("express", "Express")]

def databases : List (String × String) :=
  [("@prisma/client", "Prisma"), ("@supabase/supabase-js", "Supabase"), ("mongoose", "MongoDB"),
    ("pg", "PostgreSQL")]

/-- Looked for among the dependencies for production. -/
def authentications : List (String × String) :=
  [("next-auth", "NextAuth"), ("@supabase/auth-helpers-nextjs", "Supabase Auth")]

/-- Looked for among the dependencies for development. -/
def testRunners : List (String × String) := [("jest", "Jest"), ("vitest", "Vitest")]

/-- The label of the first package of a table that satisfies `p`. -/
def firstLabel? (p : String → Bool) (table : List (String × String)) : Option String :=
  (table.find? fun (package, _) => p package).map (·.2)

def ofManifest (m : Manifest) (technologies : List String) : Architecture where
  kind :=
    if m.names.any fun n => textContains n "next" then "Next.js App" else "Web Application"
  framework := (firstLabel? m.declares frameworks).getD "Unknown"
  language := if technologies.contains "TypeScript" then "TypeScript" else "JavaScript"
  database := firstLabel? m.declares databases
  authentication := firstLabel? m.productionNames.contains authentications.reverse
  styling := if m.declares "tailwindcss" then some "Tailwind CSS" else none
  testing := firstLabel? m.developmentNames.contains testRunners.reverse

end Architecture

end CodeSurvey

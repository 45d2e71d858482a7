import AclTree.Cli.FileTree
import AclTree.Host.Scripted
import AclTree.Json.Coding
import AclTree.Main
import AclTree.Proofs.Acl.Batches
import AclTree.Proofs.Acl.Canonical
import AclTree.Proofs.Acl.ClosedForms
import AclTree.Proofs.Acl.Entries
import AclTree.Proofs.Acl.Frozen
import AclTree.Proofs.Acl.Holds
import AclTree.Proofs.Acl.Idempotence
import AclTree.Proofs.Acl.Inverse
import AclTree.Proofs.Acl.Kept
import AclTree.Proofs.Acl.Pairs
import AclTree.Proofs.Cli.Check
import AclTree.Proofs.Cli.Output
import AclTree.Proofs.Cli.Settings
import AclTree.Proofs.Engine.Alike
import AclTree.Proofs.Engine.Along
import AclTree.Proofs.Engine.Ascent
import AclTree.Proofs.Engine.Attribution
import AclTree.Proofs.Engine.Calls
import AclTree.Proofs.Engine.Conferral
import AclTree.Proofs.Engine.Course
import AclTree.Proofs.Engine.Ends
import AclTree.Proofs.Engine.Enforcement
import AclTree.Proofs.Engine.Exact
import AclTree.Proofs.Engine.Failures
import AclTree.Proofs.Engine.Foreign
import AclTree.Proofs.Engine.Idempotence
import AclTree.Proofs.Engine.Idle
import AclTree.Proofs.Engine.Independence
import AclTree.Proofs.Engine.Keeps
import AclTree.Proofs.Engine.Leniency
import AclTree.Proofs.Engine.Limit
import AclTree.Proofs.Engine.Lineage
import AclTree.Proofs.Engine.Relates
import AclTree.Proofs.Engine.Resolution
import AclTree.Proofs.Engine.Run
import AclTree.Proofs.Engine.Stages
import AclTree.Proofs.Engine.Subtree
import AclTree.Proofs.Engine.Triple
import AclTree.Proofs.Engine.Visits
import AclTree.Proofs.Engine.Writes
import AclTree.Proofs.Except
import AclTree.Proofs.Fixture
import AclTree.Proofs.Fixture.Lists
import AclTree.Proofs.Fixture.Load
import AclTree.Proofs.Fixture.Nodes
import AclTree.Proofs.Host.Calls
import AclTree.Proofs.Host.Limited
import AclTree.Proofs.Host.Lookups
import AclTree.Proofs.Host.Recording
import AclTree.Proofs.Json.Grammar
import AclTree.Proofs.Json.Records
import AclTree.Proofs.Json.RoundTrip
import AclTree.Proofs.Path
import AclTree.Proofs.Path.Algebra
import AclTree.Proofs.Path.Grammar
import AclTree.Proofs.PathMap
import AclTree.Proofs.Privilege
import AclTree.Proofs.Privilege.Occurrence
import AclTree.Proofs.Repository.Adding
import AclTree.Proofs.Repository.Batches
import AclTree.Proofs.Repository.Change
import AclTree.Proofs.Repository.Edit
import AclTree.Proofs.Repository.Effect
import AclTree.Proofs.Repository.Inverse
import AclTree.Proofs.Repository.Lineage
import AclTree.Proofs.Repository.Live
import AclTree.Proofs.Repository.Outcomes
import AclTree.Proofs.Repository.Reachable
import AclTree.Proofs.Repository.Registry
import AclTree.Proofs.Repository.Run
import AclTree.Proofs.Repository.Stored
import AclTree.Proofs.Repository.Subtree
import AclTree.Proofs.Repository.Tree
import AclTree.Proofs.Repository.Within
import AclTree.Proofs.Settings.Override
import AclTree.Proofs.Text.Blank

import SystemsLab.Except
import SystemsLab.Cush.Job
import SystemsLab.Cush.Registry
import SystemsLab.Cush.State
import SystemsLab.Cush.Spawn
import SystemsLab.Cush.Builtin
import SystemsLab.Cush.Step
import SystemsLab.Cush.Wiring
import SystemsLab.Cush.Invariants
import SystemsLab.Cush.Members
import SystemsLab.Cush.Prompt
import SystemsLab.Malloc.Memory
import SystemsLab.Malloc.Heap
import SystemsLab.Malloc.Ops
import SystemsLab.Malloc.Client
import SystemsLab.Malloc.Layout
import SystemsLab.Malloc.Coalesce
import SystemsLab.Malloc.Alloc
import SystemsLab.Malloc.Runs
import SystemsLab.Malloc.Realloc
import SystemsLab.Malloc.Relocate
